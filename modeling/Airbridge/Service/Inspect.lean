import Airbridge.Service.Uninstall
import Airbridge.Usb.List

/-!
# The inspection of the machine

`m2022_service_inspect` looks for our printer among the USB printers and for our
queue among the CUPS queues, each listed into an array of its own, and takes the
counts as they are returned.
-/

namespace Airbridge.Service

open Airbridge.Cups Airbridge.Usb

/-- The printer the service is for. -/
def IsOurs (d : UsbInfo) : Bool := d.vid = 0x04E8 && d.pid = 0x3321

/-- `info->usb_printer`, over an array of 8 entries. -/
def inspectPrinter (usb : Libusb) : Option Bool :=
  let devs := usbList usb 8
  if devs.rc = 0 then (Listing.entries devs.out devs.count).map (·.any IsOurs) else some false

/-- `m2022_service_inspect` as far as it reads listings; `found` holds what the
other checks found. -/
def serviceInspect (found : ServiceInfo) (usb : Libusb) (dests : List Dest) : Option ServiceInfo :=
  (inspectPrinter usb).bind fun usbPrinter => inspect { found with usbPrinter := usbPrinter } dests

theorem inspectPrinter_eq (usb : Libusb) :
    inspectPrinter usb =
      if usb.printers.length ≤ 8 then some (usb.printers.any IsOurs) else none := by
  obtain ⟨hlist, hfail⟩ := usbList_eq usb 8
  have hout : (usbList usb 8).out = (Listing.listing 8 usb.printers).1 := congrArg Prod.fst hlist
  have hcount : (usbList usb 8).count = (Listing.listing 8 usb.printers).2 := congrArg Prod.snd hlist
  rw [inspectPrinter]
  by_cases hrc : (usbList usb 8).rc = 0
  · rw [if_pos hrc, hout, hcount, Listing.entries_listing]
    split_ifs <;> rfl
  · rw [if_neg hrc, hfail hrc]
    rfl

/-- The inspection reads what was listed exactly when there is room for all
printers and all queues. -/
theorem serviceInspect_ne_none_iff (found : ServiceInfo) (usb : Libusb) (dests : List Dest) :
    serviceInspect found usb dests ≠ none ↔
      usb.printers.length ≤ 8 ∧ (queuesOf dests).length ≤ 32 := by
  rw [serviceInspect, inspectPrinter_eq]
  by_cases hprinters : usb.printers.length ≤ 8
  · rw [if_pos hprinters, Option.bind_some, inspect_eq]
    by_cases hqueues : (queuesOf dests).length ≤ 32
    · rw [if_pos hqueues]
      exact iff_of_true (Option.some_ne_none _) ⟨hprinters, hqueues⟩
    · rw [if_neg hqueues]
      exact iff_of_false (fun h => h rfl) fun h => hqueues h.2
  · rw [if_neg hprinters]
    exact iff_of_false (fun h => h rfl) fun h => hprinters h.1

end Airbridge.Service
