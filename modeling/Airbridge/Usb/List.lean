import Airbridge.Lib.CString
import Airbridge.Lib.Listing
import Airbridge.Qpdl.Records

/-!
# The USB printers of a machine

`m2022_usb_list` (`usb.c`) walks the devices libusb reports and lists those with
a printer-class interface and a bulk OUT endpoint.  It stores as many as its
caller has room for and counts all of them.  `usbdev_list` (`usbdev.c`) offers
the listed printers to a callback of PAPPL.

What libusb answers is data: a device is the descriptors it returns and whether
it can be opened.
-/

namespace Airbridge.Usb

open Airbridge.Qpdl (Bytes ascii)
open CString (fit)

/-! ## What libusb answers -/

structure EndpointDescriptor where
  bmAttributes : UInt8
  bEndpointAddress : UInt8
  wMaxPacketSize : UInt16
deriving Repr, DecidableEq

structure InterfaceDescriptor where
  bInterfaceNumber : UInt8
  bAlternateSetting : UInt8
  bInterfaceClass : UInt8
  bInterfaceSubClass : UInt8
  bInterfaceProtocol : UInt8
  endpoint : List EndpointDescriptor
deriving Repr, DecidableEq

/-- The alternate settings of each interface. -/
structure ConfigDescriptor where
  interface : List (List InterfaceDescriptor)
deriving Repr, DecidableEq

structure DeviceDescriptor where
  idVendor : UInt16
  idProduct : UInt16
  bcdDevice : UInt16
  iManufacturer : UInt8
  iProduct : UInt8
  iSerialNumber : UInt8
deriving Repr, DecidableEq

/-- A device of `libusb_get_device_list`; an error is a negative return code.
`opens` says that `libusb_open` returns 0, and `string` is what
`libusb_get_string_descriptor_ascii` then returns for an index, `none` when it
returns no bytes. -/
structure LibusbDevice where
  descriptor : Except Int DeviceDescriptor
  activeConfig : Except Int ConfigDescriptor
  config : Except Int ConfigDescriptor
  busNumber : UInt8
  deviceAddress : UInt8
  opens : Bool
  string : UInt8 → Option Bytes

/-- libusb: the return code of `libusb_init`, and the device list. -/
structure Libusb where
  init : Int
  deviceList : Except Int (List LibusbDevice)

/-! ## One device -/

abbrev USB_STR_MAX : Nat := 128

abbrev USB_ENOENDPOINT : Int := -1002

abbrev LIBUSB_CLASS_PRINTER : UInt8 := 7

/-- `m2022_usb_info_t`. -/
structure UsbInfo where
  vid : UInt16
  pid : UInt16
  bcdDevice : UInt16
  bus : UInt8
  address : UInt8
  interfaceNumber : UInt8
  altSetting : UInt8
  protocol : UInt8
  epOut : UInt8 := 0
  epIn : UInt8 := 0
  epOutMaxPacket : UInt16 := 0
  manufacturer : CString := []
  product : CString := []
  serial : CString := []
deriving Repr, DecidableEq

/-- `m2022_usb_match_t`: 0 and the empty string match anything. -/
structure UsbMatch where
  vid : UInt16
  pid : UInt16
  serial : CString
deriving Repr, DecidableEq

/-- The first bulk endpoint of each direction counts. -/
def endpointStep (info : UsbInfo) (ep : EndpointDescriptor) : UsbInfo :=
  if ep.bmAttributes &&& 0x03 ≠ 0x02 then info
  else if ep.bEndpointAddress &&& 0x80 = 0 then
    if info.epOut = 0 then
      { info with epOut := ep.bEndpointAddress, epOutMaxPacket := ep.wMaxPacketSize }
    else info
  else if info.epIn = 0 then { info with epIn := ep.bEndpointAddress }
  else info

/-- One alternate setting: it is taken if it has a bulk OUT endpoint. -/
def describeSetting (dev : LibusbDevice) (dd : DeviceDescriptor) (id : InterfaceDescriptor) :
    Option UsbInfo :=
  if id.bInterfaceClass ≠ LIBUSB_CLASS_PRINTER ∨ id.bInterfaceSubClass ≠ 1 then none
  else
    let info : UsbInfo := {
      vid := dd.idVendor
      pid := dd.idProduct
      bcdDevice := dd.bcdDevice
      bus := dev.busNumber
      address := dev.deviceAddress
      interfaceNumber := id.bInterfaceNumber
      altSetting := id.bAlternateSetting
      protocol := id.bInterfaceProtocol }
    let info := id.endpoint.foldl endpointStep info
    if info.epOut ≠ 0 then some info else none

/-- The first alternate setting of the first interface that has one. -/
def describe (dev : LibusbDevice) (dd : DeviceDescriptor) : Except Int UsbInfo :=
  match dev.activeConfig.orElseLazy fun _ => dev.config with
  | .error rc => .error rc
  | .ok cfg =>
    match cfg.interface.flatten.findSome? (describeSetting dev dd) with
    | some info => .ok info
    | none => .error USB_ENOENDPOINT

/-- The string that `copy_string` leaves, from a device that is open: it ends at
the first zero of the descriptor. -/
def copyString (dev : LibusbDevice) (index : UInt8) (dstlen : Nat) : CString :=
  if index = 0 then [] else CString.ofBuffer (fit dstlen ((dev.string index).getD []) ++ [0])

theorem copyString_spec (dev : LibusbDevice) (index : UInt8) (dstlen : Nat) :
    0 ∉ copyString dev index dstlen ∧ (copyString dev index dstlen).length ≤ dstlen - 1 := by
  unfold copyString
  split_ifs
  · exact ⟨List.not_mem_nil, Nat.zero_le _⟩
  · refine ⟨CString.zero_notMem_ofBuffer _, ?_⟩
    exact (CString.length_ofBuffer_append_zero _).trans (CString.length_fit_le _ _)

def usbMatches (m : Option UsbMatch) (info : UsbInfo) : Bool :=
  match m with
  | none => true
  | some m => (m.vid = 0 || m.vid = info.vid) && (m.pid = 0 || m.pid = info.pid) &&
      (m.serial = [] || m.serial = info.serial)

/-! ## The walk over all devices -/

/-- The part of the loop in `enumerate` in front of the match: the record of a
printer, with its texts if it can be opened. -/
def printerInfo (dev : LibusbDevice) : Option UsbInfo :=
  match dev.descriptor with
  | .error _ => none
  | .ok dd =>
    match describe dev dd with
    | .error _ => none
    | .ok info => some (if dev.opens then
        { info with
          manufacturer := copyString dev dd.iManufacturer USB_STR_MAX
          product := copyString dev dd.iProduct USB_STR_MAX
          serial := copyString dev dd.iSerialNumber USB_STR_MAX }
        else info)

/-- The state of the loop: the entries of `out` that are stored, `found`, and
the device left open. -/
structure Enumeration where
  out : List UsbInfo := []
  found : Nat := 0
  opened : Option UsbInfo := none
deriving Repr, DecidableEq

/-- One device.  `max` is 0 where `out` is null, and `keepOpen` says that
`opened` is not null. -/
def enumerateStep (m : Option UsbMatch) (max : Nat) (keepOpen : Bool) (s : Enumeration)
    (dev : LibusbDevice) : Enumeration :=
  match printerInfo dev with
  | none => s
  | some info =>
    if !usbMatches m info then s
    else {
      out := if s.found < max then s.out ++ [info] else s.out
      found := s.found + 1
      opened := if keepOpen && s.opened.isNone && dev.opens then some info else s.opened }

def enumerate (deviceList : Except Int (List LibusbDevice)) (m : Option UsbMatch) (max : Nat)
    (keepOpen : Bool) : Except Int Enumeration :=
  deviceList.map fun list => list.foldl (enumerateStep m max keepOpen) {}

/-- What `m2022_usb_list` leaves: its return code, the entries of `out` that
are stored, and `*count`, which was 0 before the call. -/
structure UsbListing where
  rc : Int
  out : List UsbInfo
  count : Nat
deriving Repr, DecidableEq

def usbList (usb : Libusb) (max : Nat) : UsbListing :=
  if usb.init ≠ 0 then ⟨usb.init, [], 0⟩
  else
    match enumerate usb.deviceList none max false with
    | .error rc => ⟨rc, [], 0⟩
    | .ok e => ⟨0, e.out, e.found⟩

/-- The printers that are enumerated: none where the enumeration fails. -/
def Libusb.printers (usb : Libusb) : List UsbInfo :=
  if usb.init ≠ 0 then []
  else match usb.deviceList with
    | .error _ => []
    | .ok list => list.filterMap printerInfo

theorem enumerate_all (list : List LibusbDevice) (max : Nat) :
    let e := list.foldl (enumerateStep none max false) {}
    (e.out, e.found) = Listing.listing max (list.filterMap printerInfo) := by
  have hfold := Listing.foldl_push (enumerateStep none max false)
    (fun e : Enumeration => (e.out, e.found)) printerInfo ?_ {} [] (Listing.listing_nil max).symm list
  · rw [List.nil_append] at hfold
    exact hfold
  · intro s dev
    rw [enumerateStep]
    cases printerInfo dev with
    | none => rfl
    | some info => rfl

/-- The printers are listed, none where the enumeration fails. -/
theorem usbList_eq (usb : Libusb) (max : Nat) :
    ((usbList usb max).out, (usbList usb max).count) = Listing.listing max usb.printers ∧
      ((usbList usb max).rc ≠ 0 → usb.printers = []) := by
  have hnone : (([], 0) : List UsbInfo × Nat) = Listing.listing max [] :=
    (Listing.listing_nil max).symm
  unfold usbList Libusb.printers
  by_cases hinit : usb.init ≠ 0
  · rw [if_pos hinit, if_pos hinit]
    exact ⟨hnone, fun _ => rfl⟩
  · rw [if_neg hinit, if_neg hinit]
    cases usb.deviceList with
    | error rc => exact ⟨hnone, fun _ => rfl⟩
    | ok list => exact ⟨enumerate_all list max, fun h => absurd rfl h⟩

/-! ## The device scheme -/

abbrev USBDEV_SCHEME : CString := ascii "m2022usb"

def hexDigit (n : Nat) : UInt8 := UInt8.ofNat (if n < 10 then 48 + n else 87 + n)

/-- The conversion `%04x`. -/
def hex4 (n : UInt16) : CString :=
  [n.toNat / 4096, n.toNat / 256 % 16, n.toNat / 16 % 16, n.toNat % 16].map hexDigit

/-- `make_uri` into `size` bytes. -/
def makeUri (info : UsbInfo) (size : Nat) : CString :=
  fit size (USBDEV_SCHEME ++ ascii "://" ++ hex4 info.vid ++ ascii ":" ++ hex4 info.pid ++
    ascii "?serial=" ++ info.serial)

/-- The texts of one call of the callback. -/
structure DeviceCall where
  info : CString
  uri : CString
  id : CString
deriving Repr, DecidableEq

def deviceCall (d : UsbInfo) : DeviceCall where
  uri := makeUri d 256
  info := fit 256 (d.manufacturer ++ ascii " " ++ d.product ++ ascii " (USB, serial " ++ d.serial ++
    ascii ")")
  id := fit 512 (ascii "MFG:" ++ d.manufacturer ++ ascii ";MDL:" ++ d.product ++ ascii ";SN:" ++
    d.serial ++ ascii ";CLS:PRINTER;")

/-- `usbdev_list` over an array of 8 entries: `cb i` is what the callback
answers to its call number `i`.  The call of `err_cb` is left out. -/
def usbdevList (usb : Libusb) (cb : Nat → DeviceCall → Bool) : Option Bool :=
  let infos := usbList usb 8
  if infos.rc ≠ 0 then some false
  else Listing.search (fun i d => cb i (deviceCall d)) 0 infos.out infos.count

/-- The list is read where it was stored, if there are no more than 8 printers
or the callback accepts one of the first 8. -/
theorem usbdevList_ne_none_iff (usb : Libusb) (cb : Nat → DeviceCall → Bool) :
    usbdevList usb cb ≠ none ↔ usb.printers.length ≤ 8 ∨
      ∃ i d, i < 8 ∧ usb.printers[i]? = some d ∧ cb i (deviceCall d) = true := by
  obtain ⟨hlist, hfail⟩ := usbList_eq usb 8
  have hout : (usbList usb 8).out = usb.printers.take 8 := congrArg Prod.fst hlist
  have hcount : (usbList usb 8).count = usb.printers.length := congrArg Prod.snd hlist
  rw [usbdevList]
  by_cases hrc : (usbList usb 8).rc ≠ 0
  · rw [if_pos hrc, hfail hrc]
    exact iff_of_true (Option.some_ne_none false) (.inl (Nat.zero_le 8))
  · rw [if_neg hrc, Listing.search_ne_none_iff, hout, hcount, List.length_take]
    apply or_congr
    · omega
    · constructor
      · rintro ⟨i, d, hd, hcb⟩
        rw [List.getElem?_take] at hd
        split_ifs at hd with hlt
        rw [Nat.zero_add] at hcb
        exact ⟨i, d, hlt, hd, hcb⟩
      · rintro ⟨i, d, hlt, hd, hcb⟩
        refine ⟨i, d, ?_, ?_⟩
        · rw [List.getElem?_take_of_lt hlt, hd]
        · rw [Nat.zero_add]
          exact hcb

end Airbridge.Usb
