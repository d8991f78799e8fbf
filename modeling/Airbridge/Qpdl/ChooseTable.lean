import Airbridge.Qpdl.Codec11Encode
import Mathlib.Data.List.Perm.Subperm

/-!
# The table of a band

`m2022_codec11_choose_table` (`codec11.c`): a pre-parse with a hash of three
bytes credits distances, the 64 best-credited ones become the table, and the
default table fills the slots left over.  `CHOOSE_HASH_BITS` is 11,
`CHOOSE_SLOTS` 4 and `CHOOSE_MAX_DIST` 4096.
-/

namespace Airbridge.Qpdl

/-- `m2022_codec11_default_table`. -/
def codec11DefaultTable : List UInt16 :=
  [1, 2, 3, 4, 5, 6, 7, 8, 9, 10, 11, 12, 13, 14, 15, 16,
   17, 18, 19, 20, 21, 22, 23, 24, 32, 40, 48, 56, 64, 126, 130, 136,
   127, 128, 129, 255, 256, 257, 383, 384, 385, 511, 512, 513, 639, 640, 641, 767,
   768, 769, 895, 896, 897, 1023, 1024, 1025, 1152, 1280, 1408, 1536, 1664, 1792, 1920, 2048]

def chooseColumns : List Nat :=
  [128, 256, 384, 512, 640, 768, 896, 1024, 1152, 1280, 1408, 1536, 1664, 1792, 1920, 2048]

/-- The bucket of the three bytes at `pos`. -/
def hash3 (band : Bytes) (pos : Nat) : Nat :=
  let v := ((byteAt band pos).toUInt32 <<< 16) ||| ((byteAt band (pos + 1)).toUInt32 <<< 8) |||
    (byteAt band (pos + 2)).toUInt32
  ((v * 2654435761) >>> (32 - 11)).toNat

/-- The buckets of recent positions: 2048 rows of 4, a position being stored
plus one and 0 marking an empty slot. -/
abbrev Slots := List (List Nat)

def slotInsert (band : Bytes) (slots : Slots) (pos : Nat) : Slots :=
  let h := hash3 band pos
  slots.set h ((pos + 1) % 2 ^ 32 :: (slots.getD h []).take 3)

/-- Credit the distance `d` if its match is the longest so far; the state is
`(best, best_d)`. -/
def tryDistance (band : Bytes) (pos max : Nat) (best : Nat × Nat) (d : Nat) : Nat × Nat :=
  let n := matchLen band pos d max
  if n ≥ 3 ∧ n > best.1 then (n, d) else best

/-- The loop over the recent positions with the same hash. -/
def trySlots (band : Bytes) (pos max : Nat) : List Nat → Nat × Nat → Nat × Nat
  | [], best => best
  | s :: ss, best =>
    if s = 0 then best
    else
      let d := pos - (s - 1)
      if d > 4096 then trySlots band pos max ss best
      else trySlots band pos max ss (tryDistance band pos max best d)

/-- The loop over the byte columns to the left. -/
def tryColumns (band : Bytes) (pos max : Nat) : List Nat → Nat × Nat → Nat × Nat
  | [], best => best
  | d :: ds, best =>
    if d > pos then best else tryColumns band pos max ds (tryDistance band pos max best d)

/-- The best match the pre-parse finds at `pos`. -/
def chooseBest (band : Bytes) (slots : Slots) (pos : Nat) : Nat × Nat :=
  let max := if band.length - pos > 514 then 514 else band.length - pos
  let best := trySlots band pos max (slots.getD (hash3 band pos) []) (0, 0)
  tryColumns band pos max chooseColumns best

/-- The pre-parse.  It returns the credit of every distance. -/
def chooseCredit (band : Bytes) (pos : Nat) (credit : List Nat) (slots : Slots) : List Nat :=
  if pos + 3 ≤ band.length then
    let best := chooseBest band slots pos
    let slots' := slotInsert band slots pos
    if _h : best.1 = 0 then chooseCredit band (pos + 1) credit slots'
    else
      let credit' := credit.set best.2 ((credit.getD best.2 0 + best.1) % 2 ^ 32)
      -- the positions a match skips go into the buckets too
      let skipped := (List.range' (pos + 1) (best.1 - 1)).takeWhile fun q => q + 3 ≤ band.length
      chooseCredit band (pos + best.1) credit' (skipped.foldl (slotInsert band) slots')
  else credit
termination_by band.length - pos
decreasing_by
  · omega
  · have : (chooseBest band slots pos).1 ≠ 0 := _h
    omega

/-- The scan for the distance with the most credit: `(best_c, best_d)`. -/
def mostCredit (credit : List Nat) : Nat × Nat :=
  (List.range' 1 4096).foldl
    (fun best d => if credit.getD d 0 > best.1 then (credit.getD d 0, d) else best) (0, 0)

/-- The best-credited distances, most credit first, for at most `room` slots. -/
def takeCredited : Nat → List Nat → List UInt16 → List UInt16
  | 0, _, table => table
  | room + 1, credit, table =>
    let best := mostCredit credit
    if best.1 = 0 then table
    else takeCredited room (credit.set best.2 0) (table ++ [best.2.toUInt16])

/-- Fill the rest from the default table, without duplicates. -/
def fillDefault (table : List UInt16) : List UInt16 :=
  codec11DefaultTable.foldl
    (fun table t => if table.length < 64 ∧ t ∉ table then table ++ [t] else table) table

def chooseEntries (band : Bytes) : List UInt16 :=
  let credit := chooseCredit band 0 (List.replicate 4097 0) (List.replicate 2048 [0, 0, 0, 0])
  fillDefault (takeCredited 64 credit [])

/-! ## All 64 slots are filled -/

theorem length_takeCredited_le (room : Nat) (credit : List Nat) (table : List UInt16) :
    (takeCredited room credit table).length ≤ table.length + room := by
  induction room generalizing credit table with
  | zero => simp [takeCredited]
  | succ room ih =>
    rw [takeCredited]
    split
    · omega
    · refine (ih _ _).trans ?_
      rw [List.length_append, List.length_singleton]
      omega

/-- A fill from any list of defaults keeps at most 64 entries, and unless all
64 slots are taken it holds every default. -/
private theorem fill_spec (defaults table : List UInt16) (h : table.length ≤ 64) :
    let filled := defaults.foldl
      (fun table t => if table.length < 64 ∧ t ∉ table then table ++ [t] else table) table
    filled.length ≤ 64 ∧ table <+: filled ∧ (filled.length < 64 → defaults ⊆ filled) := by
  induction defaults generalizing table with
  | nil => simp [h]
  | cons t defaults ih =>
    simp only [List.foldl_cons]
    split_ifs with hadd
    · have hlen : (table ++ [t]).length ≤ 64 := by
        rw [List.length_append, List.length_singleton]
        omega
      obtain ⟨h1, h2, h3⟩ := ih _ hlen
      refine ⟨h1, (List.prefix_append _ _).trans h2, fun hlt => ?_⟩
      exact List.cons_subset.mpr ⟨h2.subset (by simp), h3 hlt⟩
    · obtain ⟨h1, h2, h3⟩ := ih _ h
      refine ⟨h1, h2, fun hlt => List.cons_subset.mpr ⟨?_, h3 hlt⟩⟩
      have := h2.length_le
      by_contra hmem
      exact hadd ⟨by omega, fun ht => hmem (h2.subset ht)⟩

theorem length_fillDefault (table : List UInt16) (h : table.length ≤ 64) :
    (fillDefault table).length = 64 := by
  obtain ⟨hle, -, hall⟩ := fill_spec codec11DefaultTable table h
  by_contra hne
  have hsub : codec11DefaultTable ⊆ fillDefault table :=
    hall (lt_of_le_of_ne hle hne)
  -- the default table has 64 distinct entries
  have hnodup : codec11DefaultTable.Nodup := by decide
  have := (hnodup.subperm hsub).length_le
  have h64 : codec11DefaultTable.length = 64 := rfl
  exact hne (le_antisymm hle (by omega))

theorem length_chooseEntries (band : Bytes) : (chooseEntries band).length = 64 := by
  apply length_fillDefault
  exact length_takeCredited_le 64 _ []

/-- The table of a band. -/
def codec11ChooseTable (band : Bytes) : Table := ⟨chooseEntries band, length_chooseEntries band⟩

end Airbridge.Qpdl
