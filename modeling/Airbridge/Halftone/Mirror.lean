import Airbridge.Halftone.Diffusion

/-!
# The two directions of the serpentine

One loop body scans the even lines from left to right and the odd ones from
right to left.  In the order of the scan (`scanIndex`, `scanPixel`) both runs
do the same: `SameCells` says that two rows, each scanned in its own direction,
hold the same errors, and `Alike` that two runs of the loop do.  A step keeps
`Alike`, whatever the errors are; the stores may even wrap around in 16 bits.
-/

namespace Airbridge.Halftone

open Airbridge.Qpdl (Bytes byteAt)

/-! ## Rows in two directions -/

/-- Two rows hold the same errors, each in the order of its own scan. -/
def SameCells (width : Nat) (reverse reverse' : Bool) (row row' : Nat) (cells cells' : List Int) :
    Prop :=
  ∀ j ≤ width + 1, scanCell reverse width row cells j = scanCell reverse' width row' cells' j

/-- Adding to a cell of a row changes that cell and no other one of the row. -/
theorem scanCell_addError (reverse : Bool) {width row : Nat} {cells : List Int} {j k : Nat}
    (hrow : row + (width + 2) ≤ cells.length) (hj : j ≤ width + 1) (hk : k ≤ width + 1) (d : Int) :
    scanCell reverse width row (addError cells (row + scanIndex reverse width k) d) j =
      if j = k then Int.bmod (scanCell reverse width row cells k + d) 65536
      else scanCell reverse width row cells j := by
  have hin := scanIndex_le reverse hk
  unfold scanCell
  by_cases hjk : j = k
  · subst hjk
    rw [if_pos rfl, addError, List.getD_eq_getElem?_getD, List.getElem?_set_self (by omega),
      Option.getD_some]
  · rw [if_neg hjk]
    apply getD_addError_ne
    intro heq
    exact hjk (scanIndex_inj reverse hj hk (Nat.add_left_cancel heq))

/-- Adding to the same cell of two rows keeps them the same. -/
theorem SameCells.add {width : Nat} {reverse reverse' : Bool} {row row' : Nat}
    {cells cells' : List Int} (h : SameCells width reverse reverse' row row' cells cells')
    (hrow : row + (width + 2) ≤ cells.length) (hrow' : row' + (width + 2) ≤ cells'.length)
    {k : Nat} (hk : k ≤ width + 1) (d : Int) :
    SameCells width reverse reverse' row row'
      (addError cells (row + scanIndex reverse width k) d)
      (addError cells' (row' + scanIndex reverse' width k) d) := by
  intro j hj
  rw [scanCell_addError reverse hrow hj hk, scanCell_addError reverse' hrow' hj hk, h j hj, h k hk]

/-- Adding to a cell of another row leaves a row as it is. -/
theorem scanCell_addError_other (reverse : Bool) {width row other : Nat} {cells : List Int}
    {j k : Nat} (hne : ∀ j ≤ width + 1, ∀ k ≤ width + 1,
      row + scanIndex reverse width j ≠ other + scanIndex reverse width k)
    (hj : j ≤ width + 1) (hk : k ≤ width + 1) (d : Int) :
    scanCell reverse width row (addError cells (other + scanIndex reverse width k) d) j =
      scanCell reverse width row cells j :=
  getD_addError_ne d (hne j hj k hk)

/-! ## One step of two scans -/

variable {width : Nat} {reverse reverse' : Bool} {cur next cur' next' : Nat}

/-- The four sums of a step, with the same error in both runs. -/
theorem spread_sameCells {cells cells' : List Int} (hrows : RowsFit cells.length cur next width)
    (hrows' : RowsFit cells'.length cur' next' width)
    (hcur : SameCells width reverse reverse' cur cur' cells cells')
    (hnext : SameCells width reverse reverse' next next' cells cells') {i : Nat} (hi : i < width)
    (err : Int) :
    SameCells width reverse reverse' cur cur' (spread reverse width cur next i err cells)
      (spread reverse' width cur' next' i err cells') ∧
    SameCells width reverse reverse' next next' (spread reverse width cur next i err cells)
      (spread reverse' width cur' next' i err cells') := by
  have hne := fun j hj k hk => rowCell_ne reverse hrows (j := j) (k := k) hj hk
  have hne' := fun j hj k hk => rowCell_ne reverse' hrows' (j := j) (k := k) hj hk
  have hle := hrows.cur_le
  have hle' := hrows'.cur_le
  have hnle := hrows.next_le
  have hnle' := hrows'.next_le
  unfold spread
  constructor
  · -- the last three sums are in the row below
    have hahead := hcur.add hle hle' (show i + 2 ≤ width + 1 by omega) ((err * 7).tdiv 16)
    intro j hj
    rw [scanCell_addError_other reverse hne hj (by omega),
      scanCell_addError_other reverse hne hj (by omega),
      scanCell_addError_other reverse hne hj (by omega), hahead j hj,
      scanCell_addError_other reverse' hne' hj (by omega),
      scanCell_addError_other reverse' hne' hj (by omega),
      scanCell_addError_other reverse' hne' hj (by omega)]
  · -- the first sum is in the current row
    have hfirst : SameCells width reverse reverse' next next'
        (addError cells (cur + scanIndex reverse width (i + 2)) ((err * 7).tdiv 16))
        (addError cells' (cur' + scanIndex reverse' width (i + 2)) ((err * 7).tdiv 16)) := by
      intro j hj
      rw [scanCell_addError_other reverse (fun j hj k hk => (hne k hk j hj).symm) hj (by omega),
        scanCell_addError_other reverse' (fun j hj k hk => (hne' k hk j hj).symm) hj (by omega),
        hnext j hj]
    have hbehind := hfirst.add (by rw [length_addError]; exact hnle)
      (by rw [length_addError]; exact hnle') (show i ≤ width + 1 by omega) ((err * 3).tdiv 16)
    have hbelow := hbehind.add (by simp only [length_addError]; exact hnle)
      (by simp only [length_addError]; exact hnle') (show i + 1 ≤ width + 1 by omega)
      ((err * 5).tdiv 16)
    exact hbelow.add (by simp only [length_addError]; exact hnle)
      (by simp only [length_addError]; exact hnle') (show i + 2 ≤ width + 1 by omega)
      ((err * 1).tdiv 16)

/-- A pixel, with the index arithmetic of the code, reads cell `i + 1` of the
scan and spreads its error around it. -/
theorem pixelRecord_scanned (ink : Bytes) (reverse : Bool) (cur next : Nat) (cells : List Int)
    {i : Nat} (hi : i < width) (hw : width + 2 < 2 ^ 32) :
    let r := pixelRecord ink reverse cur next cells (scanPixel reverse width i)
    r.read = scanCell reverse width cur cells (i + 1) ∧
      r.cells = spread reverse width cur next i r.err cells := by
  intro r
  obtain ⟨hhere, hahead, hbehind⟩ := scan_indices reverse hi hw
  unfold scanCell spread
  rw [← hhere, ← hahead, ← hbehind]
  exact ⟨rfl, rfl⟩

/-- A pixel is black when its error is below the value it was made from. -/
theorem get_diffusePixel (ink : Bytes) (reverse : Bool) (cur next : Nat) (s : List Int × Bytes)
    (hroom : width ≤ 8 * s.2.length) {i k : Nat} (hi : i < width) (hk : k < width) :
    Bits.get (diffusePixel ink reverse cur next s (scanPixel reverse width i)).2
        (scanPixel reverse width k) =
      (decide (i = k ∧ ((byteAt ink (scanPixel reverse width i)).toNat +
        scanCell reverse width cur s.1 (i + 1) : Int) ≥ 128) ||
          Bits.get s.2 (scanPixel reverse width k)) := by
  have hin := scanPixel_lt reverse hi
  have hread : scanCell reverse width cur s.1 (i + 1) =
      s.1.getD (cur + (scanPixel reverse width i + 1)) 0 := by
    rw [scanCell, scanIndex_here reverse hi]
  rw [diffusePixel_bits, hread]
  split_ifs with hblack
  · rw [get_setBlack (by omega)]
    congr 1
    exact decide_eq_decide.mpr ((scanPixel_inj_iff reverse hi hk).trans (and_iff_left hblack).symm)
  · rw [decide_eq_false fun hik => hblack hik.2, Bool.false_or]

/-- The rows and the pixels of two runs of the loop, each in the order of its
own scan. -/
structure Alike (width : Nat) (reverse reverse' : Bool) (cur next cur' next' : Nat)
    (s s' : List Int × Bytes) : Prop where
  rows : RowsFit s.1.length cur next width
  rows' : RowsFit s'.1.length cur' next' width
  room : width ≤ 8 * s.2.length
  room' : width ≤ 8 * s'.2.length
  cur : SameCells width reverse reverse' cur cur' s.1 s'.1
  next : SameCells width reverse reverse' next next' s.1 s'.1
  bits : ∀ k < width, Bits.get s.2 (scanPixel reverse width k) =
    Bits.get s'.2 (scanPixel reverse' width k)

/-- Two pixels with the same ink, each next in its scan, keep two runs alike. -/
theorem diffusePixel_alike {s s' : List Int × Bytes} {ink ink' : Bytes}
    (h : Alike width reverse reverse' cur next cur' next' s s') {i : Nat} (hi : i < width)
    (hw : width + 2 < 2 ^ 32)
    (hink : byteAt ink (scanPixel reverse width i) = byteAt ink' (scanPixel reverse' width i)) :
    Alike width reverse reverse' cur next cur' next'
      (diffusePixel ink reverse cur next s (scanPixel reverse width i))
      (diffusePixel ink' reverse' cur' next' s' (scanPixel reverse' width i)) := by
  obtain ⟨hlen, hbits⟩ := length_diffusePixel ink reverse cur next s (scanPixel reverse width i)
  obtain ⟨hlen', hbits'⟩ :=
    length_diffusePixel ink' reverse' cur' next' s' (scanPixel reverse' width i)
  obtain ⟨hread, hcells⟩ := pixelRecord_scanned ink reverse cur next s.1 hi hw
  obtain ⟨hread', hcells'⟩ := pixelRecord_scanned ink' reverse' cur' next' s'.1 hi hw
  have hin := scanPixel_lt reverse hi
  have hin' := scanPixel_lt reverse' hi
  -- the ink and the entry agree, so the error does
  have hentry := h.cur (i + 1) (by omega)
  have herr : (pixelRecord ink reverse cur next s.1 (scanPixel reverse width i)).err =
      (pixelRecord ink' reverse' cur' next' s'.1 (scanPixel reverse' width i)).err := by
    rw [← hread, ← hread'] at hentry
    unfold pixelRecord at hentry ⊢
    dsimp only at hentry ⊢
    rw [hink, hentry]
  rw [pixelRecord_cells ink reverse cur next s (by omega), herr] at hcells
  rw [pixelRecord_cells ink' reverse' cur' next' s' (by omega)] at hcells'
  obtain ⟨hcur, hnext⟩ := spread_sameCells h.rows h.rows' h.cur h.next hi
    (pixelRecord ink' reverse' cur' next' s'.1 (scanPixel reverse' width i)).err
  refine ⟨hlen ▸ h.rows, hlen' ▸ h.rows', hbits ▸ h.room, hbits' ▸ h.room', ?_, ?_, ?_⟩
  · rw [hcells, hcells']
    exact hcur
  · rw [hcells, hcells']
    exact hnext
  · intro k hk
    rw [get_diffusePixel ink reverse cur next s h.room hi hk,
      get_diffusePixel ink' reverse' cur' next' s' h.room' hi hk, hink, hentry, h.bits k hk]

/-! ## A line -/

/-- A halftoner whose two rows lie in its block. -/
structure Diffusing (ht : Halftoner) (width : Nat) : Prop where
  method : ht.params.method = .floydSteinberg
  width_eq : ht.width = width
  rows : RowsFit ht.state.length (ht.errCur.getD 0) (ht.errNext.getD 0) width

/-- Every halftoner that `m2022_halftoner_init` accepted is one, behind any
lines. -/
theorem reachable_diffusing {p : HtParams} {width : Nat} {state : Option (List Int)}
    (hm : p.method = .floydSteinberg) (hinit : (halftonerInit p width state).1 = 0)
    (calls : List HtCall) :
    Diffusing (Run.run halftoneStep (halftonerInit p width state).2 calls) width := by
  have hrested := run_rested hm hinit calls
  exact ⟨hrested.method, hrested.width_eq, hrested.rows⟩

/-- Entry `j` of the error row that the next line reads. -/
def errorRow (ht : Halftoner) (j : Nat) : Int := ht.state.getD (ht.errCur.getD 0 + j) 0

/-- Two lines with the same ink and the same errors, each in the order of its
own scan, stay alike over all their pixels. -/
theorem diffuseSteps_alike {ht ht' : Halftoner} (h : Diffusing ht width) (h' : Diffusing ht' width)
    (hw : width + 2 < 2 ^ 32) {ink ink' bits bits' : Bytes} {y y' : Nat}
    (hroom : width ≤ 8 * bits.length) (hroom' : width ≤ 8 * bits'.length)
    (hwhite : ∀ x < width, Bits.get bits x = false)
    (hwhite' : ∀ x < width, Bits.get bits' x = false)
    (hink : ∀ i < width, byteAt ink (scanPixel (decide (y % 2 ≠ 0)) width i) =
      byteAt ink' (scanPixel (decide (y' % 2 ≠ 0)) width i))
    (hrow : SameCells width (decide (y % 2 ≠ 0)) (decide (y' % 2 ≠ 0)) (ht.errCur.getD 0)
      (ht'.errCur.getD 0) ht.state ht'.state) {i : Nat} (hi : i ≤ width) :
    Alike width (decide (y % 2 ≠ 0)) (decide (y' % 2 ≠ 0)) (ht.errCur.getD 0) (ht.errNext.getD 0)
      (ht'.errCur.getD 0) (ht'.errNext.getD 0) (diffuseSteps ht ink y bits i)
      (diffuseSteps ht' ink' y' bits' i) := by
  induction i with
  | zero =>
    have hrows := h.rows
    have hrows' := h'.rows
    refine ⟨?_, ?_, hroom, hroom', ?_, ?_, ?_⟩
    · rw [diffuseSteps, List.range_zero, List.map_nil, List.foldl_nil, Buffer.length_store]
      exact hrows
    · rw [diffuseSteps, List.range_zero, List.map_nil, List.foldl_nil, Buffer.length_store]
      exact hrows'
    · intro j hj
      have hle := scanIndex_le (decide (y % 2 ≠ 0)) hj
      have hle' := scanIndex_le (decide (y' % 2 ≠ 0)) hj
      have hapart := hrows.apart
      have hapart' := hrows'.apart
      refine Eq.trans ?_ ((hrow j hj).trans (Eq.symm ?_))
      · exact Buffer.getD_store_outside (by rw [List.length_replicate, h.width_eq]; omega)
      · exact Buffer.getD_store_outside (by rw [List.length_replicate, h'.width_eq]; omega)
    · intro j hj
      have hle := scanIndex_le (decide (y % 2 ≠ 0)) hj
      have hle' := scanIndex_le (decide (y' % 2 ≠ 0)) hj
      refine Eq.trans (b := 0) ?_ (Eq.symm ?_)
      · exact Buffer.getD_store_replicate (by rw [h.width_eq]; omega)
          (by rw [h.width_eq]; exact hrows.next_le)
      · exact Buffer.getD_store_replicate (by rw [h'.width_eq]; omega)
          (by rw [h'.width_eq]; exact hrows'.next_le)
    · intro k hk
      exact (hwhite _ (scanPixel_lt _ hk)).trans (hwhite' _ (scanPixel_lt _ hk)).symm
  | succ i ih =>
    rw [diffuseSteps_succ, diffuseSteps_succ, h.width_eq, h'.width_eq]
    exact diffusePixel_alike (ih (by omega)) (by omega) hw (hink i (by omega))

/-- The pixels and the cells of two opposite scans lie opposite. -/
theorem scan_opposite (hne : reverse ≠ reverse') {i : Nat} (hi : i ≤ width + 1) :
    scanIndex reverse' width i = width + 1 - scanIndex reverse width i ∧
      (i < width → scanPixel reverse' width i = width - 1 - scanPixel reverse width i) := by
  unfold scanIndex scanPixel
  cases reverse <;> cases reverse'
  · exact absurd rfl hne
  · simp
  · simp
    omega
  · exact absurd rfl hne

/-- The two directions are mirror images: a line with the ink and the errors of
another one reversed, scanned the other way, leaves its black pixels and its
next errors reversed. -/
theorem floydSteinberg_mirrored {ht ht' : Halftoner} {width : Nat} (h : Diffusing ht width)
    (h' : Diffusing ht' width) (hw : width < 2 ^ 32 - 2) {c c' : HtCall} (hc : c.Fits width)
    (hc' : c'.Fits width) (hy : c.y % 2 ≠ c'.y % 2)
    (hink : ∀ x < width, byteAt c'.ink x = byteAt c.ink (width - 1 - x))
    (hrow : ∀ j ≤ width + 1, errorRow ht' j = errorRow ht (width + 1 - j)) :
    (∀ x < width,
      Bits.get (halftoneBits ht' c') x = Bits.get (halftoneBits ht c) (width - 1 - x)) ∧
    ∀ j ≤ width + 1,
      errorRow (halftoneStep ht' c') j = errorRow (halftoneStep ht c) (width + 1 - j) := by
  have hne : decide (c.y % 2 ≠ 0) ≠ decide (c'.y % 2 ≠ 0) := by
    intro heq
    have := decide_eq_decide.mp heq
    omega
  -- in the order of the scans the two lines get the same
  have hscan : ∀ i < width, byteAt c.ink (scanPixel (decide (c.y % 2 ≠ 0)) width i) =
      byteAt c'.ink (scanPixel (decide (c'.y % 2 ≠ 0)) width i) := by
    intro i hi
    have hin := scanPixel_lt (decide (c.y % 2 ≠ 0)) hi
    rw [(scan_opposite hne (show i ≤ width + 1 by omega)).2 hi, hink _ (by omega)]
    congr 1
    omega
  have hcells : SameCells width (decide (c.y % 2 ≠ 0)) (decide (c'.y % 2 ≠ 0))
      (ht.errCur.getD 0) (ht'.errCur.getD 0) ht.state ht'.state := by
    intro j hj
    have hle := scanIndex_le (decide (c.y % 2 ≠ 0)) hj
    have hentry := hrow _ (scanIndex_le (decide (c'.y % 2 ≠ 0)) hj)
    refine Eq.trans ?_ hentry.symm
    rw [(scan_opposite hne hj).1, Nat.sub_sub_self hle]
    rfl
  have halike := diffuseSteps_alike h h' (by omega) hc.room hc'.room (fun x hx => get_cleared hc hx)
    (fun x hx => get_cleared hc' hx) hscan hcells (Nat.le_refl width)
  rw [halftoneBits, halftoneBits, halftoneStep, halftoneStep,
    halftoneLine_diffuse h.method h.width_eq c, halftoneLine_diffuse h'.method h'.width_eq c',
    floydSteinberg_eq, floydSteinberg_eq, h.width_eq, h'.width_eq]
  constructor
  · intro x hx
    have hin := scanPixel_lt (decide (c'.y % 2 ≠ 0)) hx
    have hpixel := halike.bits _ hin
    rw [scanPixel_scanPixel _ hx, (scan_opposite hne.symm (by omega)).2 hin,
      scanPixel_scanPixel _ hx] at hpixel
    exact hpixel.symm
  · intro j hj
    have hle := scanIndex_le (decide (c'.y % 2 ≠ 0)) hj
    have hcell := halike.next _ hle
    unfold scanCell at hcell
    rw [scanIndex_scanIndex _ hj, (scan_opposite hne.symm hle).1, scanIndex_scanIndex _ hj] at hcell
    exact hcell.symm

/-- A line over a row of errors, one of them out of the usual range, and its
mirror image. -/
theorem floydSteinberg_mirrored_two :
    let init := (halftonerInit (htDefault .floydSteinberg) 2 (some (List.replicate 8 0))).2
    let ht := { init with state := [1, -5, 7, 300, 9, 9, 9, 9] }
    let ht' := { init with state := [300, 7, -5, 1, 6, 6, 6, 6] }
    (∀ x < 2, Bits.get (halftoneBits ht' ⟨[180, 100], 5, [0]⟩) x =
      Bits.get (halftoneBits ht ⟨[100, 180], 4, [0]⟩) (2 - 1 - x)) ∧
    ∀ j ≤ 2 + 1, errorRow (halftoneStep ht' ⟨[180, 100], 5, [0]⟩) j =
      errorRow (halftoneStep ht ⟨[100, 180], 4, [0]⟩) (2 + 1 - j) := by
  intro init ht ht'
  have h : Diffusing ht 2 := ⟨rfl, rfl, by decide, by decide, by decide⟩
  have h' : Diffusing ht' 2 := ⟨rfl, rfl, by decide, by decide, by decide⟩
  exact floydSteinberg_mirrored h h' (by decide) (c := ⟨[100, 180], 4, [0]⟩) (Nat.le_refl 1)
    (Nat.le_refl 1) (by decide) (by decide) (by decide)

end Airbridge.Halftone
