import Airbridge.Lib.CString
import Airbridge.Lib.Listing
import Airbridge.Qpdl.Records

/-!
# The local CUPS queues

`m2022_cups_queues` (`cups/queues.c`) lists the destinations of CUPS that are
queues.  It stores as many as its caller has room for and returns how many
there are.
-/

namespace Airbridge.Cups

open Airbridge.Qpdl (ascii)
open CString (fit atoi)
open Listing (listing_nil foldl_push)

/-- A `cups_dest_t` as `cupsGetDests` returns it; `option` stands for
`cupsGetOption` on its options. -/
structure Dest where
  name : CString
  instanceName : Option CString
  isDefault : Int
  option : CString → Option CString

/-- `m2022_cups_queue_t`. -/
structure CupsQueue where
  name : CString
  makeModel : CString
  deviceUri : CString
  state : Int
  stateReasons : CString
  isDefault : Bool
deriving Repr, DecidableEq

/-- `copy_opt`. -/
def copyOpt (d : Dest) (name : CString) (dstlen : Nat) : CString :=
  fit dstlen ((d.option name).getD [])

/-- The record of a destination. -/
def queueOf (d : Dest) : CupsQueue where
  name := fit 128 d.name
  makeModel := copyOpt d (ascii "printer-make-and-model") 256
  deviceUri := copyOpt d (ascii "device-uri") 512
  state := ((d.option (ascii "printer-state")).map atoi).getD 0
  stateReasons := copyOpt d (ascii "printer-state-reasons") 512
  isDefault := d.isDefault ≠ 0

/-- One destination: the entries of `out` that are stored, and `count`. -/
def listStep (max : Nat) (s : List CupsQueue × Nat) (d : Dest) : List CupsQueue × Nat :=
  if d.instanceName ≠ none then s
  else (if s.2 < max then s.1 ++ [queueOf d] else s.1, s.2 + 1)

/-- `m2022_cups_queues`. -/
def cupsQueues (dests : List Dest) (max : Nat) : List CupsQueue × Nat :=
  dests.foldl (listStep max) ([], 0)

/-- The destinations that are queues. -/
def queuesOf (dests : List Dest) : List CupsQueue :=
  (dests.filter fun d => d.instanceName = none).map queueOf

theorem mem_queuesOf {dests : List Dest} {q : CupsQueue} :
    q ∈ queuesOf dests ↔ ∃ d ∈ dests, d.instanceName = none ∧ queueOf d = q := by
  simp [queuesOf, and_assoc]

@[simp] theorem queuesOf_nil : queuesOf [] = [] := rfl

theorem queuesOf_append (dests dests' : List Dest) :
    queuesOf (dests ++ dests') = queuesOf dests ++ queuesOf dests' := by
  simp [queuesOf]

theorem queuesOf_cons {d : Dest} (h : d.instanceName = none) (dests : List Dest) :
    queuesOf (d :: dests) = queueOf d :: queuesOf dests := by
  simp [queuesOf, h]

/-- What a destination adds to the listing. -/
def foundQueue (d : Dest) : Option CupsQueue :=
  if d.instanceName = none then some (queueOf d) else none

theorem filterMap_foundQueue (dests : List Dest) : dests.filterMap foundQueue = queuesOf dests := by
  induction dests with
  | nil => rfl
  | cons d dests ih =>
    by_cases hqueue : d.instanceName = none
    · have hfound : foundQueue d = some (queueOf d) := if_pos hqueue
      rw [List.filterMap_cons_some hfound, queuesOf_cons hqueue, ih]
    · have hfound : foundQueue d = none := if_neg hqueue
      rw [List.filterMap_cons_none hfound, ih]
      simp [queuesOf, hqueue]

/-- The listing stores the first queues and counts all of them. -/
theorem cupsQueues_eq (dests : List Dest) (max : Nat) :
    cupsQueues dests max = ((queuesOf dests).take max, (queuesOf dests).length) := by
  have hfold := foldl_push (listStep max) (fun s => s) foundQueue ?_ ([], 0) []
    (listing_nil max).symm dests
  · rw [filterMap_foundQueue, List.nil_append] at hfold
    exact hfold
  · intro s d
    unfold listStep foundQueue
    by_cases hqueue : d.instanceName = none
    · rw [if_neg (not_not_intro hqueue), if_pos hqueue]
      rfl
    · rw [if_pos hqueue, if_neg hqueue]

end Airbridge.Cups
