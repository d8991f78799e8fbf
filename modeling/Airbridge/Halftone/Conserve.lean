import Airbridge.Halftone.Diffusion
import Mathlib.Algebra.BigOperators.Intervals
import Mathlib.Data.Nat.Count
import Mathlib.Tactic.Ring

/-!
# Error diffusion conserves ink

A pixel turns its ink and the error it reads into black or white and four
shares.  The shares are rounded towards zero, so together they miss the error
by at most 3 (`shares_missing`).  Over a line the sums telescope: what step `i`
adds to the cell ahead is read in step `i + 1`, and the rest goes into the row
below.  `line_conserved` is the balance after `i` steps, in the order of the
scan; at the end of the line only the share that the last pixel puts into the
margin is left over.
-/

namespace Airbridge.Halftone

open Airbridge.Qpdl (Bytes byteAt)

/-! ## The shares of one pixel -/

/-- Four truncated shares miss at most 3 of the error. -/
theorem shares_missing (err : Int) :
    (err - ((err * 7).tdiv 16 + (err * 3).tdiv 16 + (err * 5).tdiv 16 + (err * 1).tdiv 16)).natAbs
      ≤ 3 := by
  have h7 := Int.tmod_add_tdiv_mul (err * 7) 16
  have h3 := Int.tmod_add_tdiv_mul (err * 3) 16
  have h5 := Int.tmod_add_tdiv_mul (err * 5) 16
  have h1 := Int.tmod_add_tdiv_mul (err * 1) 16
  rcases le_total 0 err with hpos | hneg
  · have hmod (k : Int) (hk : 0 ≤ k) : 0 ≤ (err * k).tmod 16 ∧ (err * k).tmod 16 < 16 :=
      ⟨Int.tmod_nonneg 16 (Int.mul_nonneg hpos hk), Int.tmod_lt_of_pos _ (by decide)⟩
    have m7 := hmod 7 (by decide)
    have m3 := hmod 3 (by decide)
    have m5 := hmod 5 (by decide)
    have m1 := hmod 1 (by decide)
    omega
  · have hmod (k : Int) (hk : 0 ≤ k) : -16 < (err * k).tmod 16 ∧ (err * k).tmod 16 ≤ 0 := by
      have hflip : (err * k).tmod 16 = -((-err * k).tmod 16) := by
        rw [Int.neg_mul, Int.neg_tmod, Int.neg_neg]
      have hlow := Int.tmod_nonneg 16 (Int.mul_nonneg (Int.neg_nonneg_of_nonpos hneg) hk)
      have hhigh := Int.tmod_lt_of_pos (-err * k) (show (0 : Int) < 16 by decide)
      omega
    have m7 := hmod 7 (by decide)
    have m3 := hmod 3 (by decide)
    have m5 := hmod 5 (by decide)
    have m1 := hmod 1 (by decide)
    omega

/-! ## The cells around one step -/

variable {ht : Halftoner} {width : Nat}

/-- The value that step `i` of a line compares with 128. -/
def scanValue (ht : Halftoner) (ink : Bytes) (y : Nat) (bits : Bytes) (i : Nat) : Int :=
  pixelValue ink (ht.errCur.getD 0) (diffuseSteps ht ink y bits i).1
    (scanPixel (decide (y % 2 ≠ 0)) ht.width i)

/-- The error that step `i` spreads. -/
def scanError (ht : Halftoner) (ink : Bytes) (y : Nat) (bits : Bytes) (i : Nat) : Int :=
  scanValue ht ink y bits i - if scanValue ht ink y bits i ≥ 128 then 255 else 0

/-- The value is the ink and the entry of the pixel. -/
theorem scanValue_eq (h : Rested ht width) (ink : Bytes) (y : Nat) (bits : Bytes) {i : Nat}
    (hi : i < width) :
    scanValue ht ink y bits i = (byteAt ink (scanPixel (decide (y % 2 ≠ 0)) width i)).toNat +
      scanCell (decide (y % 2 ≠ 0)) width (ht.errCur.getD 0)
        (diffuseSteps ht ink y bits i).1 (i + 1) := by
  unfold scanCell
  rw [scanIndex_here _ hi, scanValue, h.width_eq]
  rfl

/-- What a step leaves in the cells of the two rows. -/
theorem diffuseSteps_cells (h : Rested ht width) (ink : Bytes) (y : Nat) (bits : Bytes) {i : Nat}
    (hi : i < width) :
    let cell := scanCell (decide (y % 2 ≠ 0)) width
    let before := (diffuseSteps ht ink y bits i).1
    let after := (diffuseSteps ht ink y bits (i + 1)).1
    let err := scanError ht ink y bits i
    (∀ j ≤ width + 1, cell (ht.errCur.getD 0) after j =
      cell (ht.errCur.getD 0) before j + if j = i + 2 then (err * 7).tdiv 16 else 0) ∧
    ∀ j ≤ width + 1, cell (ht.errNext.getD 0) after j =
      cell (ht.errNext.getD 0) before j + if j = i then (err * 3).tdiv 16
        else if j = i + 1 then (err * 5).tdiv 16 else if j = i + 2 then (err * 1).tdiv 16 else 0 := by
  intro cell before after err
  have hscanned := diffuseSteps_scanned h ink y bits (show i ≤ width by omega)
  have hread := (hscanned.cells_le hi).1
  have herr : err.natAbs ≤ 127 := by
    have hsmall := natAbs_err (byteAt ink (scanPixel (decide (y % 2 ≠ 0)) width i))
      (Nat.le_trans hread (show 124 ≤ 127 by omega))
    rw [← scanValue_eq h ink y bits hi] at hsmall
    exact hsmall
  have hafter : after = spread (decide (y % 2 ≠ 0)) width (ht.errCur.getD 0)
      (ht.errNext.getD 0) i err before := by
    show (diffuseSteps ht ink y bits (i + 1)).1 = _
    rw [diffuseSteps_succ, h.width_eq, diffusePixel_spread _ _ _ _ _ hi, ← h.width_eq]
    rfl
  obtain ⟨-, -, -, hcur, hnext⟩ := spread_cells hscanned hi herr
  rw [hafter]
  exact ⟨hcur, hnext⟩

/-- Cells further ahead than the next pixel are as they were before the line. -/
theorem diffuseSteps_ahead (h : Rested ht width) (ink : Bytes) (y : Nat) (bits : Bytes) {i : Nat}
    (hi : i ≤ width) {j : Nat} (hj : j ≤ width + 1) (hij : i + 1 < j ∨ i = 0) :
    scanCell (decide (y % 2 ≠ 0)) width (ht.errCur.getD 0) (diffuseSteps ht ink y bits i).1 j =
      scanCell (decide (y % 2 ≠ 0)) width (ht.errCur.getD 0) ht.state j := by
  induction i with
  | zero =>
    have hle := scanIndex_le (decide (y % 2 ≠ 0)) hj
    have hapart := h.rows.apart
    have hwidth := h.width_eq
    unfold scanCell diffuseSteps
    exact Buffer.getD_store_outside (by rw [List.length_replicate]; omega)
  | succ i ih =>
    rw [(diffuseSteps_cells h ink y bits (show i < width by omega)).1 j hj, if_neg (by omega),
      Int.add_zero]
    exact ih (by omega) (by omega)

/-- The row below is clear in front of the first step. -/
theorem diffuseSteps_clear (h : Rested ht width) (ink : Bytes) (y : Nat) (bits : Bytes) {j : Nat}
    (hj : j ≤ width + 1) :
    scanCell (decide (y % 2 ≠ 0)) width (ht.errNext.getD 0) (diffuseSteps ht ink y bits 0).1 j =
      0 := by
  have hle := scanIndex_le (decide (y % 2 ≠ 0)) hj
  have hwidth := h.width_eq
  have hnext_le := h.rows.next_le
  unfold scanCell diffuseSteps
  exact Buffer.getD_store_replicate (by omega) (by omega)

/-! ## The balance of a line -/

/-- The sum of the row below behind a step grows by the three shares. -/
theorem sum_next_succ (h : Rested ht width) (ink : Bytes) (y : Nat) (bits : Bytes) {i : Nat}
    (hi : i < width) :
    ∑ j ∈ Finset.range (width + 2), scanCell (decide (y % 2 ≠ 0)) width (ht.errNext.getD 0)
        (diffuseSteps ht ink y bits (i + 1)).1 j =
      ∑ j ∈ Finset.range (width + 2), scanCell (decide (y % 2 ≠ 0)) width (ht.errNext.getD 0)
        (diffuseSteps ht ink y bits i).1 j + ((scanError ht ink y bits i * 3).tdiv 16 +
          (scanError ht ink y bits i * 5).tdiv 16 + (scanError ht ink y bits i * 1).tdiv 16) := by
  set cell := scanCell (decide (y % 2 ≠ 0)) width (ht.errNext.getD 0)
  set err := scanError ht ink y bits i
  have hcells : ∀ j ≤ width + 1, cell (diffuseSteps ht ink y bits (i + 1)).1 j =
      cell (diffuseSteps ht ink y bits i).1 j + if j = i then (err * 3).tdiv 16
        else if j = i + 1 then (err * 5).tdiv 16 else if j = i + 2 then (err * 1).tdiv 16 else 0 :=
    (diffuseSteps_cells h ink y bits hi).2
  have hpick (k : Nat) (hk : k < width + 2) (d : Int) :
      ∑ j ∈ Finset.range (width + 2), (if j = k then d else 0) = d := by
    rw [Finset.sum_ite_eq' (Finset.range (width + 2)) k fun _ => d,
      if_pos (Finset.mem_range.mpr hk)]
  have hterm : ∀ j ∈ Finset.range (width + 2), cell (diffuseSteps ht ink y bits (i + 1)).1 j =
      cell (diffuseSteps ht ink y bits i).1 j + ((if j = i then (err * 3).tdiv 16 else 0) +
        (if j = i + 1 then (err * 5).tdiv 16 else 0) +
          if j = i + 2 then (err * 1).tdiv 16 else 0) := by
    intro j hj
    have hle : j ≤ width + 1 := by
      have := Finset.mem_range.mp hj
      omega
    refine (hcells j hle).trans ?_
    congr 1
    split_ifs <;> omega
  rw [Finset.sum_congr rfl hterm, Finset.sum_add_distrib, Finset.sum_add_distrib,
    Finset.sum_add_distrib, hpick i (by omega), hpick (i + 1) (by omega), hpick (i + 2) (by omega)]

/-- What the ink and the errors of the first `i` pixels scanned have over the
black pixels, the row below and what was put ahead. -/
def lineBalance (ht : Halftoner) (ink : Bytes) (y : Nat) (bits : Bytes) (i : Nat) : Int :=
  let reverse : Bool := y % 2 ≠ 0
  let cur := scanCell reverse ht.width (ht.errCur.getD 0)
  let next := scanCell reverse ht.width (ht.errNext.getD 0)
  let cells := (diffuseSteps ht ink y bits i).1
  ∑ k ∈ Finset.range i, (((byteAt ink (scanPixel reverse ht.width k)).toNat : Int) +
      cur ht.state (k + 1) - if scanValue ht ink y bits k ≥ 128 then 255 else 0) -
    ∑ j ∈ Finset.range (ht.width + 2), next cells j - (cur cells (i + 1) - cur ht.state (i + 1))

theorem lineBalance_zero (h : Rested ht width) (ink : Bytes) (y : Nat) (bits : Bytes) :
    lineBalance ht ink y bits 0 = 0 := by
  have hahead := diffuseSteps_ahead h ink y bits (Nat.zero_le width) (show 1 ≤ width + 1 by omega)
    (.inr rfl)
  have hclear : ∑ j ∈ Finset.range (width + 2), scanCell (decide (y % 2 ≠ 0)) width
      (ht.errNext.getD 0) (diffuseSteps ht ink y bits 0).1 j = 0 :=
    Finset.sum_eq_zero fun j hj =>
      diffuseSteps_clear h ink y bits (by have := Finset.mem_range.mp hj; omega)
  simp only [lineBalance, h.width_eq, Finset.sum_range_zero, hclear, hahead, sub_self]

/-- A step changes the balance by what its four shares miss. -/
theorem lineBalance_succ (h : Rested ht width) (ink : Bytes) (y : Nat) (bits : Bytes) {i : Nat}
    (hi : i < width) :
    lineBalance ht ink y bits (i + 1) = lineBalance ht ink y bits i +
      (scanError ht ink y bits i - ((scanError ht ink y bits i * 7).tdiv 16 +
        (scanError ht ink y bits i * 3).tdiv 16 + (scanError ht ink y bits i * 5).tdiv 16 +
        (scanError ht ink y bits i * 1).tdiv 16)) := by
  -- the entry read in step `i` is what the row had there and the share put ahead of it
  have hvalue := scanValue_eq h ink y bits hi
  have hcur : scanCell (decide (y % 2 ≠ 0)) width (ht.errCur.getD 0)
      (diffuseSteps ht ink y bits (i + 1)).1 (i + 1 + 1) =
        scanCell (decide (y % 2 ≠ 0)) width (ht.errCur.getD 0) ht.state (i + 1 + 1) +
          (scanError ht ink y bits i * 7).tdiv 16 := by
    rw [(diffuseSteps_cells h ink y bits hi).1 (i + 1 + 1) (by omega), if_pos rfl,
      diffuseSteps_ahead h ink y bits (by omega) (by omega) (.inl (by omega))]
  have hsum := sum_next_succ h ink y bits hi
  have herror : scanError ht ink y bits i =
    scanValue ht ink y bits i - if scanValue ht ink y bits i ≥ 128 then 255 else 0 := rfl
  simp only [lineBalance, h.width_eq, Finset.sum_range_succ _ i, hsum, hcur]
  generalize (if scanValue ht ink y bits i ≥ 128 then (255 : Int) else 0) = black at herror ⊢
  omega

/-- Up to 3 for each pixel, ink and error are where they went. -/
theorem natAbs_lineBalance_le (h : Rested ht width) (ink : Bytes) (y : Nat) (bits : Bytes) {i : Nat}
    (hi : i ≤ width) : (lineBalance ht ink y bits i).natAbs ≤ 3 * i := by
  induction i with
  | zero =>
    rw [lineBalance_zero h]
    exact Nat.le_refl 0
  | succ i ih =>
    have hbefore := ih (by omega)
    have hmissing := shares_missing (scanError ht ink y bits i)
    rw [lineBalance_succ h ink y bits (by omega)]
    omega

/-! ## The black pixels and the last share -/

/-- After `i` steps the black pixels are the scanned ones with a value of 128 or
more. -/
theorem diffuseSteps_pixel (h : Rested ht width) (ink : Bytes) (y : Nat) {bits : Bytes}
    (hbits : width ≤ 8 * bits.length) (hwhite : ∀ x < width, Bits.get bits x = false) {i : Nat}
    (hi : i ≤ width) {j : Nat} (hj : j < width) :
    Bits.get (diffuseSteps ht ink y bits i).2 (scanPixel (decide (y % 2 ≠ 0)) width j) =
      decide (j < i ∧ scanValue ht ink y bits j ≥ 128) := by
  induction i with
  | zero =>
    have hnone : ¬(j < 0 ∧ scanValue ht ink y bits j ≥ 128) := fun hlt => Nat.not_lt_zero j hlt.1
    exact (hwhite _ (scanPixel_lt _ hj)).trans (decide_eq_false hnone).symm
  | succ i ih =>
    have hvalue : ((byteAt ink (scanPixel (decide (y % 2 ≠ 0)) width i)).toNat +
        (diffuseSteps ht ink y bits i).1.getD
          (ht.errCur.getD 0 + (scanPixel (decide (y % 2 ≠ 0)) width i + 1)) 0 : Int) =
        scanValue ht ink y bits i := by
      rw [scanValue, h.width_eq]
      rfl
    rw [diffuseSteps_black h ink y hbits (by omega) hj, hvalue, ih (by omega)]
    by_cases hij : i = j
    · subst hij
      by_cases hblack : scanValue ht ink y bits i ≥ 128 <;> simp [hblack]
    · have hlt : j < i + 1 ↔ j < i := by omega
      simp [hij, hlt]

/-- The errors do not depend on the bits. -/
theorem diffuseSteps_errors (ht : Halftoner) (ink : Bytes) (y : Nat) (bits bits' : Bytes)
    (i : Nat) : (diffuseSteps ht ink y bits i).1 = (diffuseSteps ht ink y bits' i).1 := by
  induction i with
  | zero => rfl
  | succ i ih =>
    rw [diffuseSteps_succ, diffuseSteps_succ]
    unfold diffusePixel
    dsimp only
    rw [ih]

/-- What the last pixel of a line adds to the margin of the current row. -/
def lastShare (ht : Halftoner) (ink : Bytes) (y : Nat) (bits : Bytes) : Int :=
  match (lineRecords ht ink y bits).getLast? with
  | none => 0
  | some r => (r.err * 7).tdiv 16

/-- The margin holds the share of the last pixel and what it held before. -/
theorem lastShare_eq (h : Rested ht width) (hw : width < 2 ^ 32 - 2) (ink : Bytes) (y : Nat)
    (bits bits' : Bytes) :
    lastShare ht ink y bits' =
      scanCell (decide (y % 2 ≠ 0)) width (ht.errCur.getD 0)
          (diffuseSteps ht ink y bits width).1 (width + 1) -
        scanCell (decide (y % 2 ≠ 0)) width (ht.errCur.getD 0) ht.state (width + 1) := by
  have hwidth := h.width_eq
  unfold lastShare lineRecords
  cases width with
  | zero =>
    rw [diffuseSteps_ahead h ink y bits (Nat.le_refl 0) (Nat.le_refl _) (.inr rfl), hwidth, sub_self]
    rfl
  | succ n =>
    have hpixel : scanPixel (decide (y % 2 ≠ 0)) (n + 1) n < n + 1 :=
      scanPixel_lt _ (Nat.lt_succ_self n)
    have hrecord : (pixelRecord ink (decide (y % 2 ≠ 0)) (ht.errCur.getD 0) (ht.errNext.getD 0)
        (diffuseSteps ht ink y bits' n).1 (scanPixel (decide (y % 2 ≠ 0)) (n + 1) n)).err =
          scanError ht ink y bits n := by
      have hhere : (scanPixel (decide (y % 2 ≠ 0)) (n + 1) n + 1) % 2 ^ 32 =
          scanPixel (decide (y % 2 ≠ 0)) (n + 1) n + 1 := Nat.mod_eq_of_lt (by omega)
      rw [diffuseSteps_errors ht ink y bits' bits, scanError, scanValue, hwidth]
      unfold pixelRecord
      dsimp only
      rw [hhere]
      rfl
    rw [hwidth, List.range_succ, List.map_append]
    simp only [List.map_cons, List.map_nil, List.getLast?_concat, hrecord]
    rw [(diffuseSteps_cells h ink y bits (Nat.lt_succ_self n)).1 (n + 2) (Nat.le_refl _),
      if_pos rfl, diffuseSteps_ahead h ink y bits (Nat.le_succ n) (Nat.le_refl _) (.inl (by omega))]
    ring

/-! ## A line of a page -/

/-- A sum over the pixels in the order of the scan. -/
theorem sum_scanPixel (reverse : Bool) (width : Nat) (f : Nat → Int) :
    ∑ k ∈ Finset.range width, f (scanPixel reverse width k) = ∑ x ∈ Finset.range width, f x := by
  cases reverse with
  | false => rfl
  | true => exact Finset.sum_range_reflect f width

/-- A sum over the cells in the order of the scan. -/
theorem sum_scanIndex (reverse : Bool) (width : Nat) (f : Nat → Int) :
    ∑ j ∈ Finset.range (width + 2), f (scanIndex reverse width j) =
      ∑ j ∈ Finset.range (width + 2), f j := by
  cases reverse with
  | false => rfl
  | true => exact Finset.sum_range_reflect f (width + 2)

theorem sum_black (width : Nat) (black : Nat → Bool) :
    ∑ x ∈ Finset.range width, (if black x = true then (255 : Int) else 0) =
      255 * (Nat.count (fun x => black x = true) width : Int) := by
  induction width with
  | zero => simp
  | succ width ih =>
    rw [Finset.sum_range_succ, ih, Nat.count_succ]
    split_ifs <;> push_cast <;> ring

/-- Error diffusion conserves ink line by line: on every line of a page, the
sum of the ink and of the errors of the row is in the black pixels, in the row
below and in what the last pixel puts into the margin, up to 3 for each
pixel. -/
theorem diffusion_conserves (p : HtParams) (hm : p.method = .floydSteinberg) (width : Nat)
    (hw : width < 2 ^ 32 - 2) (state : Option (List Int))
    (hinit : (halftonerInit p width state).1 = 0) (before : List HtCall) (c : HtCall)
    (hc : c.Fits width) :
    let ht := Run.run halftoneStep (halftonerInit p width state).2 before
    let after := halftoneStep ht c
    let ink : Int := ∑ x ∈ Finset.range width, ((byteAt c.ink x).toNat : Int)
    let E := ∑ x ∈ Finset.range width, ht.state.getD (ht.errCur.getD 0 + (x + 1)) 0
    let B : Int := Nat.count (fun x => Bits.get (halftoneBits ht c) x = true) width
    let N := ∑ j ∈ Finset.range (width + 2), after.state.getD (after.errCur.getD 0 + j) 0
    let C := lastShare ht c.ink c.y c.bits
    |ink + E - 255 * B - N - C| ≤ 3 * width := by
  intro ht after ink E B N C
  have h : Rested ht width := run_rested hm hinit before
  set reverse := decide (c.y % 2 ≠ 0)
  set bits := Buffer.store c.bits 0 (List.replicate ((width + 7) / 8) 0)
  have hbits : width ≤ 8 * bits.length := hc.room
  have hline : halftoneLine ht c.ink c.y c.bits = floydSteinberg ht c.ink c.y bits :=
    halftoneLine_diffuse h.method h.width_eq c
  have hafter : after = { ht with
      state := (diffuseSteps ht c.ink c.y bits width).1
      errCur := some (ht.errNext.getD 0)
      errNext := some (ht.errCur.getD 0) } := by
    show (halftoneLine ht c.ink c.y c.bits).1 = _
    rw [hline, floydSteinberg_eq, h.width_eq]
  have hblack : halftoneBits ht c = (diffuseSteps ht c.ink c.y bits width).2 := by
    rw [halftoneBits, hline, floydSteinberg_eq, h.width_eq]
  have hC := lastShare_eq h hw c.ink c.y bits c.bits
  have hink : ∑ k ∈ Finset.range width, ((byteAt c.ink (scanPixel reverse width k)).toNat : Int) =
      ink := sum_scanPixel reverse width fun x => ((byteAt c.ink x).toNat : Int)
  have hE : ∑ k ∈ Finset.range width,
      scanCell reverse width (ht.errCur.getD 0) ht.state (k + 1) = E := by
    refine Eq.trans (Finset.sum_congr rfl fun k hk => ?_)
      (sum_scanPixel reverse width fun x => ht.state.getD (ht.errCur.getD 0 + (x + 1)) 0)
    unfold scanCell
    rw [scanIndex_here reverse (Finset.mem_range.mp hk)]
  have hN : ∑ j ∈ Finset.range (width + 2), scanCell reverse width (ht.errNext.getD 0)
      (diffuseSteps ht c.ink c.y bits width).1 j = N := by
    show _ = ∑ j ∈ Finset.range (width + 2), after.state.getD (after.errCur.getD 0 + j) 0
    rw [hafter]
    exact sum_scanIndex reverse width fun j =>
      (diffuseSteps ht c.ink c.y bits width).1.getD (ht.errNext.getD 0 + j) 0
  have hB : ∑ k ∈ Finset.range width,
      (if scanValue ht c.ink c.y bits k ≥ 128 then (255 : Int) else 0) = 255 * B := by
    refine Eq.trans (Finset.sum_congr rfl fun k hk => ?_) ((sum_scanPixel reverse width fun x =>
      if Bits.get (halftoneBits ht c) x = true then 255 else 0).trans (sum_black width _))
    have hk' := Finset.mem_range.mp hk
    have hpixel := diffuseSteps_pixel h c.ink c.y hbits (fun x hx => get_cleared hc hx)
      (le_refl width) hk'
    rw [hblack, hpixel]
    simp [hk']
  have hbalance := natAbs_lineBalance_le h c.ink c.y bits (le_refl width)
  have heq : lineBalance ht c.ink c.y bits width = ink + E - 255 * B - N - C := by
    simp only [lineBalance, h.width_eq]
    rw [Finset.sum_sub_distrib, Finset.sum_add_distrib, hink, hE, hB, hN, ← hC]
  rw [← heq, Int.abs_eq_natAbs]
  exact_mod_cast hbalance

/-- A line from right to left over the errors of another one. -/
theorem diffusion_conserves_two :
    let ht := Run.run halftoneStep
      (halftonerInit (htDefault .floydSteinberg) 2 (some (List.replicate 8 0))).2
      [⟨[100, 200], 4, [0]⟩]
    let c : HtCall := ⟨[60, 255], 5, [0]⟩
    |∑ x ∈ Finset.range 2, ((byteAt c.ink x).toNat : Int) +
      ∑ x ∈ Finset.range 2, ht.state.getD (ht.errCur.getD 0 + (x + 1)) 0 -
      255 * (Nat.count (fun x => Bits.get (halftoneBits ht c) x = true) 2 : Int) -
      ∑ j ∈ Finset.range (2 + 2),
        (halftoneStep ht c).state.getD ((halftoneStep ht c).errCur.getD 0 + j) 0 -
      lastShare ht c.ink c.y c.bits| ≤ 3 * (2 : Nat) :=
  diffusion_conserves (htDefault .floydSteinberg) rfl 2 (by decide) (some (List.replicate 8 0))
    (by decide) [⟨[100, 200], 4, [0]⟩] ⟨[60, 255], 5, [0]⟩ (Nat.le_refl 1)

end Airbridge.Halftone
