import Airbridge.Halftone.Lines

/-!
# Bounds of the error diffusion

Floyd-Steinberg spreads the error of a pixel over four cells of two rows of
16-bit errors.  `PixelRecord` is what it does to the rows for one pixel, with
the index arithmetic of the code in 32 bits.

The scan goes in either direction.  `scanIndex` numbers the cells of a row in
the order of the scan, so that the pixel scanned in step `i` reads cell `i + 1`
and spreads its error ahead to cell `i + 2` and, in the row below, to the cells
`i`, `i + 1` and `i + 2`.  `Scanned` is the invariant of a line in these
numbers: what a cell can hold is bounded by the shares it has received so far.
-/

namespace Airbridge.Halftone

open Airbridge.Qpdl (Bytes byteAt)

/-! ## What one pixel does -/

/-- `x + 1 + (uint32_t)dir`. -/
def aheadIndex (reverse : Bool) (x : Nat) : Nat :=
  (x + 1 + if reverse then 2 ^ 32 - 1 else 1) % 2 ^ 32

/-- `x + 1 - (uint32_t)dir`. -/
def behindIndex (reverse : Bool) (x : Nat) : Nat :=
  (x + 1 + (2 ^ 32 - if reverse then 2 ^ 32 - 1 else 1)) % 2 ^ 32

/-- The entry read for a pixel, the error it spreads, the indices it uses in
either row, and the four sums it stores, before their conversion to 16 bits;
last the error block behind the pixel. -/
structure PixelRecord where
  read : Int
  err : Int
  indices : List Nat
  sums : List Int
  cells : List Int

def pixelRecord (ink : Bytes) (reverse : Bool) (cur next : Nat) (cells : List Int) (x : Nat) :
    PixelRecord :=
  let here := (x + 1) % 2 ^ 32
  let ahead := aheadIndex reverse x
  let behind := behindIndex reverse x
  let read := cells.getD (cur + here) 0
  let v : Int := (byteAt ink x).toNat + read
  let err := v - if v ≥ 128 then 255 else 0
  let cells1 := addError cells (cur + ahead) ((err * 7).tdiv 16)
  let cells2 := addError cells1 (next + behind) ((err * 3).tdiv 16)
  let cells3 := addError cells2 (next + here) ((err * 5).tdiv 16)
  { read := read
    err := err
    indices := [here, ahead, behind]
    sums := [cells.getD (cur + ahead) 0 + (err * 7).tdiv 16,
      cells1.getD (next + behind) 0 + (err * 3).tdiv 16,
      cells2.getD (next + here) 0 + (err * 5).tdiv 16,
      cells3.getD (next + ahead) 0 + (err * 1).tdiv 16]
    cells := addError cells3 (next + ahead) ((err * 1).tdiv 16) }

/-- Errors stay within 127, every store keeps the value, and no index passes
the end of a row of `width + 2` cells. -/
structure PixelRecord.Bounded (r : PixelRecord) (width : Nat) : Prop where
  read : -127 ≤ r.read ∧ r.read ≤ 127
  err : -127 ≤ r.err ∧ r.err ≤ 127
  indices : ∀ i ∈ r.indices, i ≤ width + 1
  sums : ∀ v ∈ r.sums, Int.bmod v 65536 = v

/-- The pixel scanned in step `i`. -/
def scanPixel (reverse : Bool) (width i : Nat) : Nat := if reverse then width - 1 - i else i

/-- The errors and the bits after `i` pixels of a line. -/
def diffuseSteps (ht : Halftoner) (ink : Bytes) (y : Nat) (bits : Bytes) (i : Nat) :
    List Int × Bytes :=
  let reverse : Bool := y % 2 ≠ 0
  ((List.range i).map (scanPixel reverse ht.width)).foldl
    (diffusePixel ink reverse (ht.errCur.getD 0) (ht.errNext.getD 0))
    (Buffer.store ht.state (ht.errNext.getD 0) (List.replicate (ht.width + 2) 0), bits)

/-- The records of the pixels of a line, in the order of the scan. -/
def lineRecords (ht : Halftoner) (ink : Bytes) (y : Nat) (bits : Bytes) : List PixelRecord :=
  let reverse : Bool := y % 2 ≠ 0
  (List.range ht.width).map fun i =>
    pixelRecord ink reverse (ht.errCur.getD 0) (ht.errNext.getD 0)
      (diffuseSteps ht ink y bits i).1 (scanPixel reverse ht.width i)

theorem floydSteinberg_eq (ht : Halftoner) (ink : Bytes) (y : Nat) (bits : Bytes) :
    floydSteinberg ht ink y bits =
      ({ ht with
          state := (diffuseSteps ht ink y bits ht.width).1
          errCur := some (ht.errNext.getD 0)
          errNext := some (ht.errCur.getD 0) }, (diffuseSteps ht ink y bits ht.width).2) := by
  unfold floydSteinberg diffuseSteps scanPixel
  simp only [decide_eq_true_eq]

theorem diffuseSteps_succ (ht : Halftoner) (ink : Bytes) (y : Nat) (bits : Bytes) (i : Nat) :
    diffuseSteps ht ink y bits (i + 1) =
      diffusePixel ink (decide (y % 2 ≠ 0)) (ht.errCur.getD 0) (ht.errNext.getD 0)
        (diffuseSteps ht ink y bits i) (scanPixel (decide (y % 2 ≠ 0)) ht.width i) := by
  unfold diffuseSteps
  simp only [List.range_succ, List.map_append, List.foldl_append, List.map_cons, List.map_nil,
    List.foldl_cons, List.foldl_nil]

theorem aheadIndex_eq (reverse : Bool) {x : Nat} (hx : x + 2 < 2 ^ 32) :
    aheadIndex reverse x = if reverse then x else x + 2 := by
  unfold aheadIndex
  split_ifs <;> omega

theorem behindIndex_eq (reverse : Bool) {x : Nat} (hx : x + 2 < 2 ^ 32) :
    behindIndex reverse x = if reverse then x + 2 else x := by
  unfold behindIndex
  split_ifs <;> omega

/-- The index arithmetic wraps around to the neighbours of the pixel, so the
record ends with the block that the pixel leaves.  In a line of `2 ^ 32 - 1`
pixels the last one would wrap to the margin cell 0 instead of that at the end,
and neither is ever read for a pixel. -/
theorem pixelRecord_cells (ink : Bytes) (reverse : Bool) (cur next : Nat) (s : List Int × Bytes)
    {x : Nat} (hx : x + 2 < 2 ^ 32) :
    (pixelRecord ink reverse cur next s.1 x).cells = (diffusePixel ink reverse cur next s x).1 := by
  have hhere : (x + 1) % 2 ^ 32 = x + 1 := Nat.mod_eq_of_lt (by omega)
  unfold pixelRecord diffusePixel
  dsimp only
  rw [aheadIndex_eq reverse hx, behindIndex_eq reverse hx, hhere]

/-! ## Adding to a cell -/

@[simp] theorem length_addError (cells : List Int) (i : Nat) (d : Int) :
    (addError cells i d).length = cells.length := List.length_set

/-- A value within 127 fits 16 bits. -/
theorem bmod_small {v : Int} (h : v.natAbs ≤ 127) : Int.bmod v 65536 = v :=
  Int.bmod_eq_of_le (by omega) (by omega)

theorem getD_addError_ne {cells : List Int} {i k : Nat} (d : Int) (h : k ≠ i) :
    (addError cells i d).getD k 0 = cells.getD k 0 := by
  unfold addError
  rw [List.getD_eq_getElem?_getD, List.getElem?_set_ne (Ne.symm h), ← List.getD_eq_getElem?_getD]

theorem getD_addError_self {cells : List Int} {i : Nat} {d : Int} (hi : i < cells.length)
    (hsmall : (cells.getD i 0 + d).natAbs ≤ 127) :
    (addError cells i d).getD i 0 = cells.getD i 0 + d := by
  unfold addError
  rw [List.getD_eq_getElem?_getD, List.getElem?_set_self hi, Option.getD_some, bmod_small hsmall]

/-- The share `k / 16` of an error within 127. -/
theorem natAbs_share {err : Int} (k : Nat) (h : err.natAbs ≤ 127) :
    ((err * k).tdiv 16).natAbs ≤ 127 * k / 16 := by
  have hmul : (err * k).natAbs = err.natAbs * k := by
    rw [Int.natAbs_mul, Int.natAbs_natCast]
  have hle : err.natAbs * k ≤ 127 * k := Nat.mul_le_mul_right k h
  rw [Int.natAbs_tdiv, hmul]
  exact Nat.div_le_div_right hle

theorem natAbs_shares {err : Int} (h : err.natAbs ≤ 127) :
    ((err * 7).tdiv 16).natAbs ≤ 55 ∧ ((err * 3).tdiv 16).natAbs ≤ 23 ∧
      ((err * 5).tdiv 16).natAbs ≤ 39 ∧ ((err * 1).tdiv 16).natAbs ≤ 7 :=
  ⟨natAbs_share 7 h, natAbs_share 3 h, natAbs_share 5 h, natAbs_share 1 h⟩

theorem natAbs_add_small {a b : Int} {m n : Nat} (ha : a.natAbs ≤ m) (hb : b.natAbs ≤ n)
    (h : m + n ≤ 127) : (a + b).natAbs ≤ 127 :=
  Nat.le_trans (Int.natAbs_add_le a b) (Nat.le_trans (Nat.add_le_add ha hb) h)

/-- The error of a pixel is within 127 when the entry read for it is. -/
theorem natAbs_err {read : Int} (ink : UInt8) (h : read.natAbs ≤ 127) :
    ((ink.toNat + read : Int) - if (ink.toNat + read : Int) ≥ 128 then 255 else 0).natAbs ≤ 127 := by
  have hink : ink.toNat < 256 := ink.toNat_lt
  split_ifs <;> omega

/-- Four cells that get a value added, one after the other. -/
theorem addError_four {cells : List Int} {a1 a2 a3 a4 : Nat} {d1 d2 d3 d4 : Int}
    (hin : ∀ a ∈ [a1, a2, a3, a4], a < cells.length) (hne : [a1, a2, a3, a4].Nodup)
    (hsmall : (cells.getD a1 0 + d1).natAbs ≤ 127 ∧ (cells.getD a2 0 + d2).natAbs ≤ 127 ∧
      (cells.getD a3 0 + d3).natAbs ≤ 127 ∧ (cells.getD a4 0 + d4).natAbs ≤ 127) :
    let cells1 := addError cells a1 d1
    let cells2 := addError cells1 a2 d2
    let cells3 := addError cells2 a3 d3
    cells1.getD a2 0 = cells.getD a2 0 ∧ cells2.getD a3 0 = cells.getD a3 0 ∧
      cells3.getD a4 0 = cells.getD a4 0 ∧
      ∀ k, (addError cells3 a4 d4).getD k 0 = cells.getD k 0 +
        if k = a1 then d1 else if k = a2 then d2 else if k = a3 then d3
        else if k = a4 then d4 else 0 := by
  intro cells1 cells2 cells3
  simp only [List.mem_cons, List.not_mem_nil, or_false, forall_eq_or_imp, forall_eq] at hin
  simp only [List.nodup_cons, List.mem_cons, List.not_mem_nil, or_false, not_or, not_false_eq_true,
    List.nodup_nil, and_true] at hne
  obtain ⟨hin1, hin2, hin3, hin4⟩ := hin
  obtain ⟨⟨h12, h13, h14⟩, ⟨h23, h24⟩, h34⟩ := hne
  obtain ⟨hs1, hs2, hs3, hs4⟩ := hsmall
  have e2 : cells1.getD a2 0 = cells.getD a2 0 := getD_addError_ne d1 (Ne.symm h12)
  have e3 : cells2.getD a3 0 = cells.getD a3 0 :=
    (getD_addError_ne d2 (Ne.symm h23)).trans (getD_addError_ne d1 (Ne.symm h13))
  have e4 : cells3.getD a4 0 = cells.getD a4 0 :=
    ((getD_addError_ne d3 (Ne.symm h34)).trans (getD_addError_ne d2 (Ne.symm h24))).trans
      (getD_addError_ne d1 (Ne.symm h14))
  have l1 : cells1.length = cells.length := length_addError cells a1 d1
  have l2 : cells2.length = cells.length := (length_addError cells1 a2 d2).trans l1
  have l3 : cells3.length = cells.length := (length_addError cells2 a3 d3).trans l2
  refine ⟨e2, e3, e4, fun k => ?_⟩
  by_cases hk4 : k = a4
  · rw [hk4, if_neg (Ne.symm h14), if_neg (Ne.symm h24), if_neg (Ne.symm h34), if_pos rfl,
      getD_addError_self (by omega) (by rw [e4]; exact hs4), e4]
  rw [getD_addError_ne d4 hk4]
  by_cases hk3 : k = a3
  · rw [hk3, if_neg (Ne.symm h13), if_neg (Ne.symm h23), if_pos rfl,
      getD_addError_self (by omega) (by rw [e3]; exact hs3), e3]
  rw [getD_addError_ne d3 hk3]
  by_cases hk2 : k = a2
  · rw [hk2, if_neg (Ne.symm h12), if_pos rfl,
      getD_addError_self (by omega) (by rw [e2]; exact hs2), e2]
  rw [getD_addError_ne d2 hk2]
  by_cases hk1 : k = a1
  · rw [hk1, if_pos rfl, getD_addError_self hin1 hs1]
  rw [getD_addError_ne d1 hk1, if_neg hk1, if_neg hk2, if_neg hk3, if_neg hk4, Int.add_zero]

/-! ## A row in the order of the scan -/

/-- The two rows lie in the block and do not overlap. -/
structure RowsFit (length cur next width : Nat) : Prop where
  cur_le : cur + (width + 2) ≤ length
  next_le : next + (width + 2) ≤ length
  apart : cur + (width + 2) ≤ next ∨ next + (width + 2) ≤ cur

/-- The index in a row of the cell with number `j` in the order of the scan. -/
def scanIndex (reverse : Bool) (width j : Nat) : Nat := if reverse then width + 1 - j else j

/-- Cell `j` of the row at `row`, in the order of the scan. -/
def scanCell (reverse : Bool) (width row : Nat) (cells : List Int) (j : Nat) : Int :=
  cells.getD (row + scanIndex reverse width j) 0

theorem scanIndex_le (reverse : Bool) {width j : Nat} (hj : j ≤ width + 1) :
    scanIndex reverse width j ≤ width + 1 := by
  unfold scanIndex
  split_ifs <;> omega

theorem scanIndex_inj (reverse : Bool) {width j k : Nat} (hj : j ≤ width + 1) (hk : k ≤ width + 1)
    (h : scanIndex reverse width j = scanIndex reverse width k) : j = k := by
  unfold scanIndex at h
  split_ifs at h <;> omega

theorem scanIndex_inj_iff (reverse : Bool) {width j k : Nat} (hj : j ≤ width + 1)
    (hk : k ≤ width + 1) : scanIndex reverse width j = scanIndex reverse width k ↔ j = k :=
  ⟨scanIndex_inj reverse hj hk, fun h => by rw [h]⟩

theorem scanIndex_scanIndex (reverse : Bool) {width j : Nat} (hj : j ≤ width + 1) :
    scanIndex reverse width (scanIndex reverse width j) = j := by
  unfold scanIndex
  split_ifs <;> omega

theorem scanPixel_lt (reverse : Bool) {width i : Nat} (hi : i < width) :
    scanPixel reverse width i < width := by
  unfold scanPixel
  split_ifs <;> omega

theorem scanPixel_inj_iff (reverse : Bool) {width i j : Nat} (hi : i < width) (hj : j < width) :
    scanPixel reverse width i = scanPixel reverse width j ↔ i = j := by
  unfold scanPixel
  split_ifs <;> omega

/-- Every pixel of the line is scanned. -/
theorem scanPixel_scanPixel (reverse : Bool) {width x : Nat} (hx : x < width) :
    scanPixel reverse width (scanPixel reverse width x) = x := by
  unfold scanPixel
  split_ifs <;> omega

/-- In step `i` the entry of the pixel is cell `i + 1`. -/
theorem scanIndex_here (reverse : Bool) {width i : Nat} (hi : i < width) :
    scanIndex reverse width (i + 1) = scanPixel reverse width i + 1 := by
  unfold scanIndex scanPixel
  split_ifs <;> omega

/-- In step `i` the cell ahead is cell `i + 2`. -/
theorem scanIndex_ahead (reverse : Bool) {width i : Nat} (hi : i < width) :
    scanIndex reverse width (i + 2) =
      if reverse then scanPixel reverse width i else scanPixel reverse width i + 2 := by
  unfold scanIndex scanPixel
  split_ifs <;> omega

/-- In step `i` the cell behind is cell `i`. -/
theorem scanIndex_behind (reverse : Bool) {width i : Nat} (hi : i < width) :
    scanIndex reverse width i =
      if reverse then scanPixel reverse width i + 2 else scanPixel reverse width i := by
  unfold scanIndex scanPixel
  split_ifs <;> omega

/-! ## One step of the scan -/

/-- What a cell of the current row can hold before step `i`: the shares of the
row above, and for the next pixel that of the pixel before it. -/
def curBound (i j : Nat) : Nat := if j = i + 1 then 124 else 69

/-- What a cell of the row below can hold before step `i`: the shares of the
pixels scanned so far. -/
def nextBound (i j : Nat) : Nat :=
  if j < i then 69 else if j = i then 46 else if j = i + 1 then 7 else 0

/-- The error block before step `i` of a line. -/
structure Scanned (reverse : Bool) (width cur next : Nat) (cells : List Int) (i : Nat) :
    Prop where
  rows : RowsFit cells.length cur next width
  cur : ∀ j ≤ width + 1, i < j → (scanCell reverse width cur cells j).natAbs ≤ curBound i j
  next : ∀ j ≤ width + 1, (scanCell reverse width next cells j).natAbs ≤ nextBound i j

/-- The bounds of the cells that step `i` reads or writes. -/
theorem Scanned.cells_le {reverse : Bool} {width cur next : Nat} {cells : List Int} {i : Nat}
    (h : Scanned reverse width cur next cells i) (hi : i < width) :
    (scanCell reverse width cur cells (i + 1)).natAbs ≤ 124 ∧
      (scanCell reverse width cur cells (i + 2)).natAbs ≤ 69 ∧
      (scanCell reverse width next cells i).natAbs ≤ 46 ∧
      (scanCell reverse width next cells (i + 1)).natAbs ≤ 7 ∧
      (scanCell reverse width next cells (i + 2)).natAbs ≤ 0 := by
  have hc1 := h.cur (i + 1) (by omega) (by omega)
  have hc2 := h.cur (i + 2) (by omega) (by omega)
  have hn0 := h.next i (by omega)
  have hn1 := h.next (i + 1) (by omega)
  have hn2 := h.next (i + 2) (by omega)
  unfold curBound at hc1 hc2
  unfold nextBound at hn0 hn1 hn2
  rw [if_pos rfl] at hc1
  rw [if_neg (by omega)] at hc2
  rw [if_neg (by omega), if_pos rfl] at hn0
  rw [if_neg (by omega), if_neg (by omega), if_pos rfl] at hn1
  rw [if_neg (by omega), if_neg (by omega), if_neg (by omega)] at hn2
  exact ⟨hc1, hc2, hn0, hn1, hn2⟩

/-- The indices that step `i` computes are those of its cells. -/
theorem scan_indices (reverse : Bool) {width i : Nat} (hi : i < width) (hw : width + 2 < 2 ^ 32) :
    (scanPixel reverse width i + 1) % 2 ^ 32 = scanIndex reverse width (i + 1) ∧
      aheadIndex reverse (scanPixel reverse width i) = scanIndex reverse width (i + 2) ∧
      behindIndex reverse (scanPixel reverse width i) = scanIndex reverse width i := by
  have hx : scanPixel reverse width i + 2 < 2 ^ 32 := by
    unfold scanPixel
    split_ifs <;> omega
  refine ⟨?_, ?_, ?_⟩
  · rw [scanIndex_here reverse hi, Nat.mod_eq_of_lt (by omega)]
  · rw [scanIndex_ahead reverse hi, aheadIndex_eq reverse hx]
  · rw [scanIndex_behind reverse hi, behindIndex_eq reverse hx]

/-- The cells of two rows are different cells of the block. -/
theorem rowCell_ne (reverse : Bool) {length cur next width : Nat}
    (h : RowsFit length cur next width) {j k : Nat} (hj : j ≤ width + 1) (hk : k ≤ width + 1) :
    cur + scanIndex reverse width j ≠ next + scanIndex reverse width k := by
  have hle := scanIndex_le reverse hj
  have hle' := scanIndex_le reverse hk
  have hapart := h.apart
  omega

/-- The block behind the four sums of a pixel, in the order of the scan. -/
def spread (reverse : Bool) (width cur next i : Nat) (err : Int) (cells : List Int) : List Int :=
  let cells := addError cells (cur + scanIndex reverse width (i + 2)) ((err * 7).tdiv 16)
  let cells := addError cells (next + scanIndex reverse width i) ((err * 3).tdiv 16)
  let cells := addError cells (next + scanIndex reverse width (i + 1)) ((err * 5).tdiv 16)
  addError cells (next + scanIndex reverse width (i + 2)) ((err * 1).tdiv 16)

/-- The four cells that get a share lie in the block and are different. -/
theorem spread_targets (reverse : Bool) {length cur next width i : Nat}
    (h : RowsFit length cur next width) (hi : i < width) :
    (∀ a ∈ [cur + scanIndex reverse width (i + 2), next + scanIndex reverse width i,
      next + scanIndex reverse width (i + 1), next + scanIndex reverse width (i + 2)],
      a < length) ∧
    [cur + scanIndex reverse width (i + 2), next + scanIndex reverse width i,
      next + scanIndex reverse width (i + 1), next + scanIndex reverse width (i + 2)].Nodup := by
  constructor
  · have hcur_le := h.cur_le
    have hnext_le := h.next_le
    have hle0 := scanIndex_le reverse (show i ≤ width + 1 by omega)
    have hle1 := scanIndex_le reverse (show i + 1 ≤ width + 1 by omega)
    have hle2 := scanIndex_le reverse (show i + 2 ≤ width + 1 by omega)
    simp only [List.mem_cons, List.not_mem_nil, or_false, forall_eq_or_imp, forall_eq]
    omega
  · have hrow (k : Nat) (hk : k ≤ width + 1) :=
      rowCell_ne reverse h (show i + 2 ≤ width + 1 by omega) hk
    have hinj {j k : Nat} (hj : j ≤ width + 1) (hk : k ≤ width + 1) (hjk : j ≠ k) :
        next + scanIndex reverse width j ≠ next + scanIndex reverse width k :=
      fun heq => hjk (scanIndex_inj reverse hj hk (Nat.add_left_cancel heq))
    simp only [List.nodup_cons, List.mem_cons, List.not_mem_nil, or_false, not_or,
      not_false_eq_true, List.nodup_nil, and_true]
    exact ⟨⟨hrow i (by omega), hrow (i + 1) (by omega), hrow (i + 2) (by omega)⟩,
      ⟨hinj (by omega) (by omega) (by omega), hinj (by omega) (by omega) (by omega)⟩,
      hinj (by omega) (by omega) (by omega)⟩

/-- What the four sums of a pixel find and leave in the cells. -/
theorem spread_cells {reverse : Bool} {width cur next : Nat} {cells : List Int} {i : Nat}
    (h : Scanned reverse width cur next cells i) (hi : i < width) {err : Int}
    (herr : err.natAbs ≤ 127) :
    let c := scanCell reverse width cur cells
    let n := scanCell reverse width next cells
    let cells1 := addError cells (cur + scanIndex reverse width (i + 2)) ((err * 7).tdiv 16)
    let cells2 := addError cells1 (next + scanIndex reverse width i) ((err * 3).tdiv 16)
    let cells3 := addError cells2 (next + scanIndex reverse width (i + 1)) ((err * 5).tdiv 16)
    scanCell reverse width next cells1 i = n i ∧
      scanCell reverse width next cells2 (i + 1) = n (i + 1) ∧
      scanCell reverse width next cells3 (i + 2) = n (i + 2) ∧
      (∀ j ≤ width + 1,
        scanCell reverse width cur (spread reverse width cur next i err cells) j =
          c j + if j = i + 2 then (err * 7).tdiv 16 else 0) ∧
      ∀ j ≤ width + 1,
        scanCell reverse width next (spread reverse width cur next i err cells) j =
          n j + if j = i then (err * 3).tdiv 16 else if j = i + 1 then (err * 5).tdiv 16
            else if j = i + 2 then (err * 1).tdiv 16 else 0 := by
  intro c n cells1 cells2 cells3
  obtain ⟨hin, hne⟩ := spread_targets reverse h.rows hi
  obtain ⟨-, hc2, hn0, hn1, hn2⟩ := h.cells_le hi
  obtain ⟨h7, h3, h5, h1⟩ := natAbs_shares herr
  have hsmall : (c (i + 2) + (err * 7).tdiv 16).natAbs ≤ 127 ∧
      (n i + (err * 3).tdiv 16).natAbs ≤ 127 ∧
      (n (i + 1) + (err * 5).tdiv 16).natAbs ≤ 127 ∧
      (n (i + 2) + (err * 1).tdiv 16).natAbs ≤ 127 :=
    ⟨natAbs_add_small hc2 h7 (by decide), natAbs_add_small hn0 h3 (by decide),
      natAbs_add_small hn1 h5 (by decide),
      natAbs_add_small hn2 h1 (by decide)⟩
  obtain ⟨hg2, hg3, hg4, hgetD⟩ := addError_four hin hne hsmall
  refine ⟨hg2, hg3, hg4, fun j hj => ?_, fun j hj => ?_⟩
  · have hrow (k : Nat) (hk : k ≤ width + 1) := rowCell_ne reverse h.rows hj hk
    refine (hgetD _).trans (congrArg (cells.getD _ 0 + ·) ?_)
    rw [if_neg (hrow i (by omega)), if_neg (hrow (i + 1) (by omega)),
      if_neg (hrow (i + 2) (by omega))]
    simp only [Nat.add_right_inj, scanIndex_inj_iff reverse hj (show i + 2 ≤ width + 1 by omega)]
  · have hrow := rowCell_ne reverse h.rows (show i + 2 ≤ width + 1 by omega) hj
    refine (hgetD _).trans (congrArg (cells.getD _ 0 + ·) ?_)
    rw [if_neg (Ne.symm hrow)]
    simp only [Nat.add_right_inj, scanIndex_inj_iff reverse hj (show i ≤ width + 1 by omega),
      scanIndex_inj_iff reverse hj (show i + 1 ≤ width + 1 by omega),
      scanIndex_inj_iff reverse hj (show i + 2 ≤ width + 1 by omega)]

/-- The four sums of a pixel keep the invariant. -/
theorem spread_scanned {reverse : Bool} {width cur next : Nat} {cells : List Int} {i : Nat}
    (h : Scanned reverse width cur next cells i) (hi : i < width) {err : Int}
    (herr : err.natAbs ≤ 127) :
    Scanned reverse width cur next (spread reverse width cur next i err cells) (i + 1) := by
  obtain ⟨-, -, -, hcur, hnext⟩ := spread_cells h hi herr
  obtain ⟨h7, h3, h5, h1⟩ := natAbs_shares herr
  have hlen : (spread reverse width cur next i err cells).length = cells.length := by
    unfold spread
    simp only [length_addError]
  refine ⟨by rw [hlen]; exact h.rows, fun j hj hlt => ?_, fun j hj => ?_⟩
  · have hold := h.cur j hj (by omega)
    rw [hcur j hj]
    unfold curBound at hold ⊢
    split_ifs at hold ⊢ <;> omega
  · have hold := h.next j hj
    rw [hnext j hj]
    unfold nextBound at hold ⊢
    split_ifs at hold ⊢ <;> omega

/-- What a pixel does stays in bounds. -/
theorem pixelRecord_bounded {reverse : Bool} {width cur next : Nat} {cells : List Int} {i : Nat}
    (h : Scanned reverse width cur next cells i) (hi : i < width) (hw : width + 2 < 2 ^ 32)
    (ink : Bytes) :
    (pixelRecord ink reverse cur next cells (scanPixel reverse width i)).Bounded width := by
  obtain ⟨hhere, hahead, hbehind⟩ := scan_indices reverse hi hw
  obtain ⟨hc1, hc2, hn0, hn1, hn2⟩ := h.cells_le hi
  generalize hr : pixelRecord ink reverse cur next cells (scanPixel reverse width i) = r
  have hread : r.read = scanCell reverse width cur cells (i + 1) := by
    rw [← hr]
    show cells.getD (cur + (scanPixel reverse width i + 1) % 2 ^ 32) 0 = _
    rw [hhere]
    rfl
  have hread_le : r.read.natAbs ≤ 127 := by
    rw [hread]
    exact Nat.le_trans hc1 (by omega)
  have herr : r.err.natAbs ≤ 127 := by
    rw [← hr] at hread_le ⊢
    exact natAbs_err (byteAt ink (scanPixel reverse width i)) hread_le
  obtain ⟨h7, h3, h5, h1⟩ := natAbs_shares herr
  obtain ⟨hg2, hg3, hg4, -⟩ := spread_cells h hi herr
  have hsums : r.sums = [scanCell reverse width cur cells (i + 2) + (r.err * 7).tdiv 16,
      scanCell reverse width next cells i + (r.err * 3).tdiv 16,
      scanCell reverse width next cells (i + 1) + (r.err * 5).tdiv 16,
      scanCell reverse width next cells (i + 2) + (r.err * 1).tdiv 16] := by
    rw [← hg2, ← hg3, ← hg4]
    unfold scanCell
    rw [← hhere, ← hahead, ← hbehind, ← hr]
    rfl
  refine ⟨by omega, by omega, ?_, ?_⟩
  · intro k hk
    have hk' : k ∈ [scanIndex reverse width (i + 1), scanIndex reverse width (i + 2),
        scanIndex reverse width i] := by
      rw [← hhere, ← hahead, ← hbehind]
      rw [← hr] at hk
      exact hk
    simp only [List.mem_cons, List.not_mem_nil, or_false] at hk'
    rcases hk' with rfl | rfl | rfl
    · exact scanIndex_le reverse (by omega)
    · exact scanIndex_le reverse (by omega)
    · exact scanIndex_le reverse (by omega)
  · intro v hv
    rw [hsums] at hv
    simp only [List.mem_cons, List.not_mem_nil, or_false] at hv
    rcases hv with rfl | rfl | rfl | rfl
    · exact bmod_small (natAbs_add_small hc2 h7 (by decide))
    · exact bmod_small (natAbs_add_small hn0 h3 (by decide))
    · exact bmod_small (natAbs_add_small hn1 h5 (by decide))
    · exact bmod_small (natAbs_add_small hn2 h1 (by decide))

/-- The value that a pixel compares with 128. -/
def pixelValue (ink : Bytes) (cur : Nat) (cells : List Int) (x : Nat) : Int :=
  (byteAt ink x).toNat + cells.getD (cur + (x + 1)) 0

/-- A pixel spreads its error over four cells. -/
theorem diffusePixel_spread (ink : Bytes) (reverse : Bool) (cur next : Nat) (s : List Int × Bytes)
    {width i : Nat} (hi : i < width) :
    let v := pixelValue ink cur s.1 (scanPixel reverse width i)
    (diffusePixel ink reverse cur next s (scanPixel reverse width i)).1 =
      spread reverse width cur next i (v - if v ≥ 128 then 255 else 0) s.1 := by
  intro v
  unfold spread
  rw [scanIndex_here reverse hi, scanIndex_ahead reverse hi, scanIndex_behind reverse hi]
  rfl

/-- A pixel keeps the invariant. -/
theorem diffusePixel_scanned {reverse : Bool} {width cur next : Nat} {s : List Int × Bytes}
    {i : Nat} (h : Scanned reverse width cur next s.1 i) (hi : i < width) (ink : Bytes) :
    Scanned reverse width cur next
      (diffusePixel ink reverse cur next s (scanPixel reverse width i)).1 (i + 1) := by
  have hread := (h.cells_le hi).1
  unfold scanCell at hread
  rw [scanIndex_here reverse hi] at hread
  have herr := natAbs_err (byteAt ink (scanPixel reverse width i))
    (Nat.le_trans hread (show 124 ≤ 127 by omega))
  rw [diffusePixel_spread ink reverse cur next s hi]
  exact spread_scanned h hi herr

/-! ## A line -/

/-- An error-diffusing halftoner between two lines: the row of the next line
holds at most the shares that a line above it can leave. -/
structure Rested (ht : Halftoner) (width : Nat) : Prop where
  method : ht.params.method = .floydSteinberg
  width_eq : ht.width = width
  rows : RowsFit ht.state.length (ht.errCur.getD 0) (ht.errNext.getD 0) width
  cur : ∀ j ≤ width + 1, (ht.state.getD (ht.errCur.getD 0 + j) 0).natAbs ≤ 69

/-- Before each step of a line its invariant holds. -/
theorem diffuseSteps_scanned {ht : Halftoner} {width : Nat} (h : Rested ht width)
    (ink : Bytes) (y : Nat) (bits : Bytes) {i : Nat} (hi : i ≤ width) :
    Scanned (decide (y % 2 ≠ 0)) width (ht.errCur.getD 0) (ht.errNext.getD 0)
      (diffuseSteps ht ink y bits i).1 i := by
  induction i with
  | zero =>
    have hrows := h.rows
    have hlen : (diffuseSteps ht ink y bits 0).1.length = ht.state.length :=
      Buffer.length_store _ _ _
    have hcells : (diffuseSteps ht ink y bits 0).1 = Buffer.store ht.state (ht.errNext.getD 0)
        (List.replicate (width + 2) 0) := by
      rw [← h.width_eq]
      rfl
    refine ⟨by rw [hlen]; exact hrows, fun j hj hlt => ?_, fun j hj => ?_⟩
    · have hle := scanIndex_le (decide (y % 2 ≠ 0)) hj
      have hold := h.cur _ hle
      have hapart := hrows.apart
      unfold scanCell
      rw [hcells, Buffer.getD_store_outside (by rw [List.length_replicate]; omega)]
      unfold curBound
      split_ifs
      · exact Nat.le_trans hold (by omega)
      · exact hold
    · have hle := scanIndex_le (decide (y % 2 ≠ 0)) hj
      unfold scanCell
      rw [hcells, Buffer.getD_store_replicate (by omega) hrows.next_le]
      exact Nat.zero_le _
  | succ i ih =>
    rw [diffuseSteps_succ, h.width_eq]
    exact diffusePixel_scanned (ih (by omega)) (by omega) ink

theorem diffusePixel_bits (ink : Bytes) (reverse : Bool) (cur next : Nat) (s : List Int × Bytes)
    (x : Nat) :
    (diffusePixel ink reverse cur next s x).2 =
      if ((byteAt ink x).toNat + s.1.getD (cur + (x + 1)) 0 : Int) ≥ 128 then setBlack s.2 x
      else s.2 := by
  unfold diffusePixel
  dsimp only
  split_ifs with h1 h2 h2
  · rfl
  · exact absurd (by decide) h2
  · exact absurd rfl h2
  · rfl

/-- Step `i` may blacken its pixel and leaves the others as they are. -/
theorem diffuseSteps_black {ht : Halftoner} {width : Nat} (h : Rested ht width) (ink : Bytes)
    (y : Nat) {bits : Bytes} (hbits : width ≤ 8 * bits.length) {i j : Nat} (hi : i < width)
    (hj : j < width) :
    Bits.get (diffuseSteps ht ink y bits (i + 1)).2 (scanPixel (decide (y % 2 ≠ 0)) width j) =
      if ((byteAt ink (scanPixel (decide (y % 2 ≠ 0)) width i)).toNat +
          (diffuseSteps ht ink y bits i).1.getD
            (ht.errCur.getD 0 + (scanPixel (decide (y % 2 ≠ 0)) width i + 1)) 0 : Int) ≥ 128 then
        decide (i = j) ||
          Bits.get (diffuseSteps ht ink y bits i).2 (scanPixel (decide (y % 2 ≠ 0)) width j)
      else Bits.get (diffuseSteps ht ink y bits i).2 (scanPixel (decide (y % 2 ≠ 0)) width j) := by
  have hlen : (diffuseSteps ht ink y bits i).2.length = bits.length :=
    (length_diffuse ink _ _ _ _ _).2
  have hin : scanPixel (decide (y % 2 ≠ 0)) width i < width := scanPixel_lt _ hi
  rw [diffuseSteps_succ, h.width_eq, diffusePixel_bits]
  split_ifs
  · rw [get_setBlack (by omega)]
    congr 1
    exact decide_eq_decide.mpr (scanPixel_inj_iff _ hi hj)
  · rfl

/-- After `i` steps the pixels scanned are exact and the others are white. -/
theorem diffuseSteps_bits {ht : Halftoner} {width : Nat} (h : Rested ht width)
    (ink : Bytes) (y : Nat) {bits : Bytes}
    (hbits : width ≤ 8 * bits.length) (hwhite : ∀ x < width, Bits.get bits x = false) {i : Nat}
    (hi : i ≤ width) :
    ∀ j < width, let x := scanPixel (decide (y % 2 ≠ 0)) width j
      let black := Bits.get (diffuseSteps ht ink y bits i).2 x
      (i ≤ j → black = false) ∧ (byteAt ink x = 0 → black = false) ∧
        (j < i → byteAt ink x = 255 → black = true) := by
  induction i with
  | zero =>
    intro j hj
    have hfalse := hwhite _ (scanPixel_lt (decide (y % 2 ≠ 0)) hj)
    exact ⟨fun _ => hfalse, fun _ => hfalse, fun h => absurd h (Nat.not_lt_zero _)⟩
  | succ i ih =>
    intro j hj x black
    obtain ⟨hlater, hzero, hsolid⟩ := ih (by omega) j hj
    have hread := ((diffuseSteps_scanned h ink y bits (show i ≤ width by omega)).cells_le
      (by omega)).1
    have hink := (byteAt ink (scanPixel (decide (y % 2 ≠ 0)) width i)).toNat_lt
    unfold scanCell at hread
    rw [scanIndex_here _ (by omega)] at hread
    have hblack : black = if ((byteAt ink (scanPixel (decide (y % 2 ≠ 0)) width i)).toNat +
          (diffuseSteps ht ink y bits i).1.getD
            (ht.errCur.getD 0 + (scanPixel (decide (y % 2 ≠ 0)) width i + 1)) 0 : Int) ≥ 128
        then decide (i = j) || Bits.get (diffuseSteps ht ink y bits i).2 x
        else Bits.get (diffuseSteps ht ink y bits i).2 x :=
      diffuseSteps_black h ink y hbits (by omega) hj
    refine ⟨fun hle => ?_, fun h0 => ?_, fun hlt h255 => ?_⟩
    · have hne : decide (i = j) = false := decide_eq_false (by omega)
      rw [hblack, hlater (by omega), hne]
      exact ite_self _
    · by_cases hij : i = j
      · subst hij
        have h0' : (byteAt ink (scanPixel (decide (y % 2 ≠ 0)) width i)).toNat = 0 := by
          rw [show byteAt ink _ = 0 from h0]
          rfl
        rw [hblack, if_neg (by omega), hzero h0]
      · rw [hblack, hzero h0, show decide (i = j) = false from decide_eq_false hij]
        exact ite_self _
    · by_cases hij : i = j
      · subst hij
        have h255' : (byteAt ink (scanPixel (decide (y % 2 ≠ 0)) width i)).toNat = 255 := by
          rw [show byteAt ink _ = 255 from h255]
          rfl
        rw [hblack, if_pos (by omega), decide_eq_true rfl, Bool.true_or]
      · rw [hblack, hsolid (by omega) h255, Bool.or_true]
        exact ite_self _

theorem halftoneLine_diffuse {ht : Halftoner} {width : Nat}
    (hm : ht.params.method = .floydSteinberg) (hw : ht.width = width) (c : HtCall) :
    halftoneLine ht c.ink c.y c.bits = floydSteinberg ht c.ink c.y
      (Buffer.store c.bits 0 (List.replicate ((width + 7) / 8) 0)) := by
  unfold halftoneLine
  rw [hm, hw]

/-- A line leaves the halftoner ready for the next one. -/
theorem halftoneStep_rested {ht : Halftoner} {width : Nat} (h : Rested ht width)
    (c : HtCall) : Rested (halftoneStep ht c) width := by
  have hend := diffuseSteps_scanned h c.ink c.y
    (Buffer.store c.bits 0 (List.replicate ((width + 7) / 8) 0)) (Nat.le_refl width)
  unfold halftoneStep
  rw [halftoneLine_diffuse h.method h.width_eq c, floydSteinberg_eq]
  obtain ⟨hmethod, rfl, -, -⟩ := h
  refine ⟨hmethod, rfl, ⟨hend.rows.next_le, hend.rows.cur_le, hend.rows.apart.symm⟩, ?_⟩
  intro k hk
  have hle := scanIndex_le (decide (c.y % 2 ≠ 0)) hk
  have hnext := hend.next _ hle
  unfold scanCell at hnext
  rw [scanIndex_scanIndex _ hk] at hnext
  refine Nat.le_trans hnext ?_
  unfold nextBound
  split_ifs <;> omega

/-- The pixels of a line stay in bounds. -/
theorem lineRecords_bounded {ht : Halftoner} {width : Nat} (h : Rested ht width)
    (hw : width + 2 < 2 ^ 32) (ink : Bytes) (y : Nat) (bits : Bytes) :
    ∀ r ∈ lineRecords ht ink y bits, r.Bounded width := by
  intro r hr
  unfold lineRecords at hr
  rw [h.width_eq] at hr
  obtain ⟨i, hi, rfl⟩ := List.mem_map.mp hr
  have hlt : i < width := List.mem_range.mp hi
  exact pixelRecord_bounded (diffuseSteps_scanned h ink y bits (Nat.le_of_lt hlt)) hlt hw ink

/-- The bits of a line are exact. -/
theorem halftoneBits_rested {ht : Halftoner} {width : Nat} (h : Rested ht width)
    {c : HtCall} (hc : c.Fits width) :
    Exact c.ink width (halftoneBits ht c) := by
  intro x hx
  obtain ⟨-, hzero, hsolid⟩ := diffuseSteps_bits h c.ink c.y hc.room
    (fun x hx => get_cleared hc hx) (Nat.le_refl width) _ (scanPixel_lt (decide (c.y % 2 ≠ 0)) hx)
  rw [scanPixel_scanPixel _ hx] at hzero hsolid
  unfold halftoneBits
  rw [halftoneLine_diffuse h.method h.width_eq c, floydSteinberg_eq, h.width_eq]
  exact ⟨hsolid (scanPixel_lt _ hx), hzero⟩

/-! ## Pages -/

/-- What `m2022_halftoner_init` leaves when it accepts a block for the error
diffusion: both rows are cleared, and the current one is the first. -/
theorem halftonerInit_diffuse {p : HtParams} {width : Nat} {state : Option (List Int)}
    (hm : p.method = .floydSteinberg) (hinit : (halftonerInit p width state).1 = 0) :
    ∃ block, state = some block ∧ 2 * (width + 2) ≤ block.length ∧
      (halftonerInit p width state).2 =
        { params := p
          width := width
          state := Buffer.store block 0 (List.replicate (2 * (width + 2)) 0)
          errCur := some 0
          errNext := some (width + 2) } := by
  have hfail : ¬(-1 : Int) = 0 := by decide
  cases state with
  | none =>
    unfold halftonerInit at hinit
    rw [hm] at hinit
    exact absurd hinit hfail
  | some block =>
    unfold halftonerInit at hinit ⊢
    rw [hm] at hinit ⊢
    dsimp only at hinit ⊢
    by_cases hroom : 2 * block.length < halftonerStateBytes width
    · rw [if_pos hroom] at hinit
      exact absurd hinit hfail
    · rw [if_neg hroom]
      unfold halftonerStateBytes at hroom
      exact ⟨block, rfl, by omega, rfl⟩

/-- A halftoner that `m2022_halftoner_init` accepted is ready for a line. -/
theorem halftonerInit_rested {p : HtParams} {width : Nat} {state : Option (List Int)}
    (hm : p.method = .floydSteinberg) (hinit : (halftonerInit p width state).1 = 0) :
    Rested (halftonerInit p width state).2 width := by
  obtain ⟨block, -, hlen, hht⟩ := halftonerInit_diffuse hm hinit
  rw [hht]
  refine ⟨hm, rfl, ?_, fun j hj => ?_⟩
  · show RowsFit (Buffer.store block 0 _).length 0 (width + 2) width
    rw [Buffer.length_store]
    exact ⟨by omega, by omega, by omega⟩
  · show ((Buffer.store block 0 _).getD (0 + j) 0).natAbs ≤ 69
    rw [Buffer.getD_store_replicate (by omega) (by omega)]
    exact Nat.zero_le _

/-- Behind every run of lines the halftoner is ready for another. -/
theorem run_rested {p : HtParams} {width : Nat} {state : Option (List Int)}
    (hm : p.method = .floydSteinberg) (hinit : (halftonerInit p width state).1 = 0)
    (calls : List HtCall) :
    Rested (Run.run halftoneStep (halftonerInit p width state).2 calls) width := by
  have hstep (ht : Halftoner) (c : HtCall) (h : Rested ht width) :
      Rested (halftoneStep ht c) width := halftoneStep_rested h c
  exact Run.run_invariant hstep (halftonerInit_rested hm hinit) calls

/-- Over every page of lines, in whatever order, the error diffusion stays in
bounds: the errors it reads and spreads lie within 127, its stores keep their
values, its indices stay inside the rows, and solid black and paper white come
out as they are. -/
theorem diffusion_bounded (p : HtParams) (hm : p.method = .floydSteinberg) (width : Nat)
    (hw : width < 2 ^ 32 - 2) (state : Option (List Int))
    (hinit : (halftonerInit p width state).1 = 0) (before : List HtCall) (c : HtCall)
    (hc : c.Fits width) :
    let ht := Run.run halftoneStep (halftonerInit p width state).2 before
    (∀ r ∈ lineRecords ht c.ink c.y c.bits, r.Bounded width) ∧
      Exact c.ink width (halftoneBits ht c) := by
  intro ht
  have hrested : Rested ht width := run_rested hm hinit before
  exact ⟨lineRecords_bounded hrested (by omega) c.ink c.y c.bits,
    halftoneBits_rested hrested hc⟩

/-- A second line over the errors of a first one. -/
theorem diffusion_bounded_two :
    let ht := Run.run halftoneStep
      (halftonerInit (htDefault .floydSteinberg) 2 (some (List.replicate 8 0))).2
      [⟨[100, 200], 5, [0]⟩]
    (∀ r ∈ lineRecords ht [0, 255] 2 [0], r.Bounded 2) ∧
      Exact [0, 255] 2 (halftoneBits ht ⟨[0, 255], 2, [0]⟩) :=
  diffusion_bounded (htDefault .floydSteinberg) rfl 2 (by decide) (some (List.replicate 8 0))
    (by decide) [⟨[100, 200], 5, [0]⟩] ⟨[0, 255], 2, [0]⟩ (Nat.le_refl 1)

end Airbridge.Halftone
