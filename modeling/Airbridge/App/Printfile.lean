import Airbridge.Qpdl.Truncation
import Airbridge.Usb.Unplug

/-!
# Raw jobs

A job in the printer's own format passes through `cb_printfile` (`app.c`)
unchanged, in pieces of at most 65536 bytes.  The device may hold back what it
was given until it is flushed, which is done behind the last piece.  Whatever
the printer accepts is a front part of the file, so that it reads the first
records of the file and nothing else; a success means that the device took the
whole file.
-/

namespace Airbridge.App

open Airbridge.Qpdl Airbridge.Usb

/-! ## The device -/

section
variable {δ : Type*}

end

/-! ## The device scheme -/

end Airbridge.App
