import Airbridge.Service.Inspect

/-!
# The probe command

`cmd_probe.c` reports the USB printers and the CUPS queues of the machine.  It
cuts both counts at the sizes of its arrays, and `m2022_service_inspect` and
`usbdev_list` do not.  What the report prints of each entry is left out, and
only that it reads the entry stays.
-/

namespace Airbridge.Cli

open Airbridge.Qpdl (ascii)
open Airbridge.Cups Airbridge.Service Airbridge.Usb

def MAX_DEVICES : Nat := 8

def MAX_QUEUES : Nat := 32

/-- `probed_printer_t`. -/
structure ProbedPrinter where
  info : UsbInfo
  deviceId : CString
  openError : Int
  statusError : Int
  status : UInt8
deriving Repr, DecidableEq

/-- What the printer with this record answers: to `m2022_usb_open`, the device
ID, and the return code and byte of the port status. -/
structure PrinterAnswers where
  openError : UsbInfo → Int
  deviceId : UsbInfo → CString
  portStatus : UsbInfo → Int × UInt8

def query (answers : PrinterAnswers) (info : UsbInfo) : ProbedPrinter :=
  let rc := answers.openError info
  if rc ≠ 0 then ⟨info, [], rc, rc, 0⟩
  else
    let status := answers.portStatus info
    ⟨info, answers.deviceId info, rc, status.1, status.2⟩

/-- What `print_text` and `print_json` are given to print. -/
structure ProbeReport where
  json : Bool
  printers : List ProbedPrinter
  queues : List CupsQueue
deriving Repr, DecidableEq

/-- The options, or an unknown one. -/
def probeOptions (argv : List CString) : Option (Bool × Bool) :=
  argv.foldlM (fun (o : Bool × Bool) (arg : CString) =>
    if arg = ascii "--json" then some (true, o.2)
    else if arg = ascii "--quiet" then some (o.1, true)
    else none) (false, false)

/-- The part of `cmd_probe` behind the options: the exit status and the report.
It has no result when it reads an entry that was not listed. -/
def probe (usb : Libusb) (dests : List Dest) (answers : PrinterAnswers) (json quiet : Bool) :
    Option (Int × Option ProbeReport) :=
  let infos := usbList usb MAX_DEVICES
  let np := if infos.rc ≠ 0 then 0 else infos.count
  let np := if np > MAX_DEVICES then MAX_DEVICES else np
  (Listing.entries infos.out np).bind fun devices =>
    let printers := devices.map (query answers)
    let queues := cupsQueues dests MAX_QUEUES
    let nq := if queues.2 > MAX_QUEUES then MAX_QUEUES else queues.2
    let report :=
      if json || !quiet then
        (Listing.entries queues.1 nq).map fun queues => some ⟨json, printers, queues⟩
      else some none
    let status := if np = 0 then 1 else if printers.any (·.openError = 0) then 0 else 2
    report.map fun report => (status, report)

/-- `cmd_probe`. -/
def cmdProbe (usb : Libusb) (dests : List Dest) (answers : PrinterAnswers) (argv : List CString) :
    Option (Int × Option ProbeReport) :=
  match probeOptions argv with
  | none => some (2, none)
  | some (json, quiet) => probe usb dests answers json quiet

theorem cut_eq_min (count max : Nat) : (if count > max then max else count) = min count max := by
  split_ifs <;> omega

/-- Both listings are cut, so the probe always reads what was listed. -/
theorem probe_ne_none (usb : Libusb) (dests : List Dest) (answers : PrinterAnswers)
    (json quiet : Bool) : probe usb dests answers json quiet ≠ none := by
  obtain ⟨hlist, hfail⟩ := usbList_eq usb MAX_DEVICES
  have hout : (usbList usb MAX_DEVICES).out = (Listing.listing MAX_DEVICES usb.printers).1 :=
    congrArg Prod.fst hlist
  have hcount : (if (usbList usb MAX_DEVICES).rc ≠ 0 then 0 else (usbList usb MAX_DEVICES).count) =
      (Listing.listing MAX_DEVICES usb.printers).2 := by
    split_ifs with hrc
    · rw [hfail hrc]
      rfl
    · exact congrArg Prod.snd hlist
  have hqueues : cupsQueues dests MAX_QUEUES = Listing.listing MAX_QUEUES (queuesOf dests) :=
    cupsQueues_eq dests MAX_QUEUES
  rw [probe]
  dsimp only
  rw [hcount, cut_eq_min, cut_eq_min, hout, Listing.entries_cut, hqueues, Listing.entries_cut,
    Option.bind_some]
  split_ifs <;> exact Option.some_ne_none _

theorem cmdProbe_ne_none (usb : Libusb) (dests : List Dest) (answers : PrinterAnswers)
    (argv : List CString) : cmdProbe usb dests answers argv ≠ none := by
  rw [cmdProbe]
  cases probeOptions argv with
  | none => exact Option.some_ne_none _
  | some options => exact probe_ne_none usb dests answers options.1 options.2

/-! ## All callers -/

/-- A caller of the two listings, with what else it is given. -/
inductive Caller where
  | serviceInspect (found : ServiceInfo)
  | usbdevList (cb : Nat → DeviceCall → Bool)
  | cmdProbe (answers : PrinterAnswers) (argv : List CString)

/-- On a machine with these USB devices and CUPS destinations, the caller reads
only entries of its arrays that the listings stored. -/
def Caller.ReadsStored (usb : Libusb) (dests : List Dest) : Caller → Prop
  | .serviceInspect found => Service.serviceInspect found usb dests ≠ none
  | .usbdevList cb => Usb.usbdevList usb cb ≠ none
  | .cmdProbe answers argv => Cli.cmdProbe usb dests answers argv ≠ none

/-- The arrays have room for all that is listed, or the loop stops before its
array ends, or the caller cuts the counts. -/
def Caller.HasRoom (usb : Libusb) (dests : List Dest) : Caller → Prop
  | .serviceInspect _ => usb.printers.length ≤ 8 ∧ (queuesOf dests).length ≤ 32
  | .usbdevList cb => usb.printers.length ≤ 8 ∨
      ∃ i d, i < 8 ∧ usb.printers[i]? = some d ∧ cb i (deviceCall d) = true
  | .cmdProbe _ _ => True

/-- Each caller reads only what was listed exactly when it has room. -/
theorem readsStored_iff (usb : Libusb) (dests : List Dest) (caller : Caller) :
    caller.ReadsStored usb dests ↔ caller.HasRoom usb dests := by
  cases caller with
  | serviceInspect found => exact serviceInspect_ne_none_iff found usb dests
  | usbdevList cb => exact usbdevList_ne_none_iff usb cb
  | cmdProbe answers argv => exact iff_of_true (cmdProbe_ne_none usb dests answers argv) trivial

/-- A printer that cannot be opened. -/
def plainPrinter : LibusbDevice where
  descriptor := .ok ⟨0x04E8, 0x3321, 0x0100, 1, 2, 3⟩
  activeConfig := .ok ⟨[[⟨0, 0, LIBUSB_CLASS_PRINTER, 1, 2, [⟨0x02, 0x01, 512⟩, ⟨0x02, 0x82, 512⟩]⟩]]⟩
  config := .error (-5)
  busNumber := 1
  deviceAddress := 4
  opens := false
  string := fun _ => none

/-- Nine printers on the bus. -/
def ninePrinters : Libusb := ⟨0, .ok (List.replicate 9 plainPrinter)⟩

/-- With nine printers, a callback that accepts none of them makes
`usbdev_list` read a ninth entry of its array of eight. -/
theorem ninePrinters_outside :
    ¬∀ caller : Caller, caller.ReadsStored ninePrinters [] := by
  intro h
  exact h (.usbdevList fun _ _ => false) rfl

end Airbridge.Cli
