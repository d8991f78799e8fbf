import Airbridge.Halftone.Screens
import Airbridge.Lib.Periods
import Mathlib.Data.List.Perm.Subperm
import Mathlib.Data.Nat.Count

/-!
# Constant tone

An ordered screen of side `c` holds every rank below `c * c` once (`Ranks`):
the Bayer matrices by their construction, the clustered screen because each
turn of its loop takes a cell that is still free.  A rank becomes a threshold,
and constant ink blackens the cells whose threshold is below it, so every
`c` by `c` area of a page has the same number of black pixels, wherever it
lies.
-/

namespace Airbridge.Halftone

open Airbridge.Qpdl (Bytes byteAt)

/-! ## Every rank once -/

/-- The first `n` entries of a matrix are the ranks below `n`, in some order. -/
structure Ranks (n : Nat) (m : List UInt8) : Prop where
  levels : n ≤ 256
  room : n ≤ m.length
  perm : ((List.range n).map (m.getD · 0)).Perm ((List.range n).map UInt8.ofNat)

theorem ranks_bayer4 : Ranks 16 (bayer 4 clearMatrix) where
  levels := by decide
  room := by decide +kernel
  perm := by decide +kernel

theorem ranks_bayer8 : Ranks 64 (bayer 8 clearMatrix) where
  levels := by decide
  room := by decide +kernel
  perm := by decide +kernel

/-- While a cell is free, the nearest one that the scan finds is free. -/
theorem nearestFree_free {c : Nat} (dot : Nat) {taken : List Bool} {i : Nat} (hi : i < c * c)
    (hfree : taken.getD i false = false) : taken.getD (nearestFree c dot taken) false = false := by
  unfold nearestFree
  have hstep : ∀ (is : List Nat) (best : Option Int × Nat),
      (best.1 ≠ none → taken.getD best.2 false = false) → (best.1 ≠ none ∨ i ∈ is) →
      taken.getD (is.foldl (fun (best : Option Int × Nat) i =>
        if taken.getD i false then best
        else
          let key := clusterKey c dot i
          if best.1.all (key < ·) then (some key, i) else best) best).2 false = false := by
    intro is
    induction is with
    | nil =>
      intro best hbest hsome
      exact hbest (hsome.resolve_right List.not_mem_nil)
    | cons j is ih =>
      intro best hbest hsome
      rw [List.foldl_cons]
      dsimp only
      by_cases htaken : taken.getD j false = true
      · rw [if_pos htaken]
        refine ih best hbest (hsome.imp_right fun hmem => ?_)
        rcases List.mem_cons.mp hmem with heq | hmem
        · rw [heq, htaken] at hfree
          exact absurd hfree (by decide)
        · exact hmem
      · rw [if_neg htaken]
        split_ifs with hbetter
        · exact ih _ (fun _ => Bool.eq_false_of_not_eq_true htaken) (.inl (by simp))
        · refine ih best hbest (.inl fun hnone => hbetter ?_)
          rw [hnone]
          rfl
  exact hstep _ _ (fun h => absurd rfl h) (.inr (List.mem_range.mpr hi))

/-- The loop of `clustered` behind the ranks below `cells.length`: rank `r`
went to `cells[r]`. -/
structure Ranked (n : Nat) (cells : List Nat) (s : List Bool × List UInt8) : Prop where
  taken_room : n ≤ s.1.length
  room : n ≤ s.2.length
  nodup : cells.Nodup
  lt : ∀ i ∈ cells, i < n
  taken : ∀ i < n, s.1.getD i false = true ↔ i ∈ cells
  ranks : cells.map (s.2.getD · 0) = (List.range cells.length).map UInt8.ofNat

/-- Giving the next rank to a free cell keeps the invariant. -/
theorem Ranked.step {n : Nat} {cells : List Nat} {s : List Bool × List UInt8}
    (h : Ranked n cells s) {i : Nat} (hi : i < n) (hfree : s.1.getD i false = false) :
    Ranked n (cells ++ [i]) (s.1.set i true, s.2.set i (UInt8.ofNat cells.length)) := by
  have hnew : i ∉ cells := by
    intro hmem
    rw [(h.taken i hi).mpr hmem] at hfree
    exact absurd hfree (by decide)
  have htaken := h.taken_room
  have hroom := h.room
  refine ⟨?_, ?_, ?_, ?_, ?_, ?_⟩
  · rw [List.length_set]
    exact htaken
  · rw [List.length_set]
    exact hroom
  · rw [List.nodup_append]
    refine ⟨h.nodup, List.nodup_singleton i, fun j hj k hk => ?_⟩
    rw [List.mem_singleton.mp hk]
    exact fun heq => hnew (heq ▸ hj)
  · intro j hj
    rcases List.mem_append.mp hj with hj | hj
    · exact h.lt j hj
    · rw [List.mem_singleton.mp hj]
      exact hi
  · intro j hj
    rw [List.mem_append, List.mem_singleton, ← h.taken j hj]
    by_cases hij : i = j
    · subst hij
      simp [show i < s.1.length by omega]
    · simp [List.getD_eq_getElem?_getD, List.getElem?_set_ne hij, Ne.symm hij]
  · have hold : cells.map ((s.2.set i (UInt8.ofNat cells.length)).getD · 0) =
        cells.map (s.2.getD · 0) := by
      apply List.map_congr_left
      intro j hj
      have hij : i ≠ j := fun heq => hnew (heq ▸ hj)
      simp only [List.getD_eq_getElem?_getD, List.getElem?_set_ne hij]
    rw [List.map_append, hold, h.ranks, List.length_append, List.length_singleton, List.range_succ,
      List.map_append]
    simp [show i < s.2.length by omega]

/-- A list of `n` different numbers below `n` holds all of them. -/
theorem Ranked.perm {n : Nat} {cells : List Nat} {s : List Bool × List UInt8}
    (h : Ranked n cells s) (hlen : cells.length = n) : cells.Perm (List.range n) := by
  have hsubset : cells ⊆ List.range n := fun i hi => List.mem_range.mpr (h.lt i hi)
  apply (h.nodup.subperm hsubset).perm_of_length_le
  rw [List.length_range, hlen]

/-- Behind `k` turns of the loop `k` cells have their rank. -/
theorem rankCells_ranked {c : Nat} (hc : 0 < c) (hc16 : c ≤ 16) {k : Nat} (hk : k ≤ c * c) :
    ∃ cells, cells.length = k ∧ Ranked (c * c) cells
      (rankCells c (List.range k) (List.replicate 256 false, clearMatrix)) := by
  have hle : c * c ≤ 16 * 16 := Nat.mul_le_mul hc16 hc16
  induction k with
  | zero =>
    refine ⟨[], rfl, ?_, ?_, List.nodup_nil, fun i hi => absurd hi List.not_mem_nil, ?_, rfl⟩
    · show c * c ≤ (List.replicate 256 false).length
      rw [List.length_replicate]
      exact hle
    · show c * c ≤ (List.replicate 256 (0 : UInt8)).length
      rw [List.length_replicate]
      exact hle
    · intro i hi
      refine iff_of_false ?_ List.not_mem_nil
      show ¬(List.replicate 256 false).getD i false = true
      rw [List.getD_replicate _ (by omega)]
      decide
  | succ k ih =>
    obtain ⟨cells, hlen, hranked⟩ := ih (by omega)
    -- fewer cells are taken than there are, so one of them is free
    obtain ⟨i, hi, hfree⟩ : ∃ i < c * c, i ∉ cells := by
      by_contra hall
      have hsubset : List.range (c * c) ⊆ cells := by
        intro i hi
        by_contra hmem
        exact hall ⟨i, List.mem_range.mp hi, hmem⟩
      have hcard := (List.nodup_range.subperm hsubset).length_le
      rw [List.length_range] at hcard
      omega
    have hfree' := Bool.eq_false_of_not_eq_true (mt (hranked.taken i hi).mp hfree)
    have hnext := hranked.step (nearestFree_lt hc (k % 2) _) (nearestFree_free (k % 2) hi hfree')
    rw [hlen] at hnext
    have hturn : rankCells c (List.range (k + 1)) (List.replicate 256 false, clearMatrix) =
        rankCells c [k] (rankCells c (List.range k) (List.replicate 256 false, clearMatrix)) := by
      rw [List.range_succ]
      exact List.foldl_append
    rw [hturn]
    exact ⟨_, by rw [List.length_append, hlen, List.length_singleton], hnext⟩

/-- The clustered screen holds every rank once. -/
theorem ranks_clustered {c : Nat} (hc : 0 < c) (hc16 : c ≤ 16) :
    Ranks (c * c) (clustered c clearMatrix) := by
  have hle : c * c ≤ 16 * 16 := Nat.mul_le_mul hc16 hc16
  obtain ⟨cells, hlen, hranked⟩ := rankCells_ranked hc hc16 (Nat.le_refl (c * c))
  rw [clustered_eq]
  refine ⟨hle, hranked.room, ?_⟩
  have hperm := (hranked.perm hlen).map
    ((rankCells c (List.range (c * c)) (List.replicate 256 false, clearMatrix)).2.getD · 0)
  rw [hranked.ranks, hlen] at hperm
  exact hperm.symm

/-! ## How many cells an ink blackens -/

/-- The threshold of rank `r` among `n` ranks. -/
def rankThreshold (n r : Nat) : Nat := (2 * r + 1) * 256 / (2 * n)

/-- Scaling does not overflow a byte. -/
theorem rankThreshold_lt {n r : Nat} (hr : r < n) : rankThreshold n r < 256 := by
  unfold rankThreshold
  rw [Nat.div_lt_iff_lt_mul (by omega)]
  omega

/-- Constant ink blackens as many cells of a screen as there are ranks with a
threshold below it. -/
theorem sum_ranks {n : Nat} {m : List UInt8} (h : Ranks n m) (v : UInt8) :
    ∑ i ∈ Finset.range n, (if v > (scaleMatrix m n n).getD i 0 then 1 else 0) =
      Nat.count (fun r => rankThreshold n r < v.toNat) n := by
  -- the sum over the cells is one over the ranks in another order
  let black (rank : UInt8) : Nat := if v > UInt8.ofNat (rankThreshold n rank.toNat) then 1 else 0
  have hcells : ∀ i ∈ List.range n,
      (if v > (scaleMatrix m n n).getD i 0 then 1 else 0) = black (m.getD i 0) := by
    intro i hi
    have hlt := List.mem_range.mp hi
    have hroom := h.room
    rw [getD_scaleMatrix (by omega) hlt]
    rfl
  have hranks : ∀ r ∈ List.range n,
      black (UInt8.ofNat r) = if rankThreshold n r < v.toNat then 1 else 0 := by
    intro r hr
    have hlt := List.mem_range.mp hr
    have hlevels := h.levels
    have hiff : v > UInt8.ofNat (rankThreshold n (UInt8.ofNat r).toNat) ↔
        rankThreshold n r < v.toNat := by
      rw [UInt8.toNat_ofNat_of_lt' (show r < 256 by omega), gt_iff_lt, UInt8.lt_iff_toNat_lt,
        UInt8.toNat_ofNat_of_lt' (rankThreshold_lt hlt)]
    simp only [black, hiff]
  have hlist (f : Nat → Nat) : ∑ i ∈ Finset.range n, f i = ((List.range n).map f).sum := rfl
  rw [Nat.count_eq_card_filter_range, Finset.card_filter, hlist, hlist,
    List.map_congr_left hcells, ← List.map_congr_left hranks]
  have hperm := h.perm.map black
  rw [List.map_map, List.map_map] at hperm
  exact hperm.sum_eq

/-! ## Ordered screens -/

/-- The side of an ordered screen. -/
def orderedSide (p : HtParams) : Option Nat :=
  match p.method with
  | .bayer4 => some 4
  | .bayer8 => some 8
  | .clustered => some (clusterSide p)
  | _ => none

/-- The thresholds of an ordered screen are scaled ranks, repeated over the
page. -/
theorem orderedSide_threshold {p : HtParams} {c : Nat} (hp : orderedSide p = some c) (width : Nat)
    (state : Option (List Int)) :
    0 < c ∧ ∃ m, Ranks (c * c) m ∧ ∀ y x,
      screenThreshold (halftonerInit p width state).2 y x =
        (scaleMatrix m (c * c) (c * c)).getD (y % c * c + x % c) 0 := by
  unfold orderedSide at hp
  unfold screenThreshold halftonerInit
  cases hmethod : p.method with
  | bayer4 =>
    rw [hmethod] at hp
    obtain rfl := Option.some.inj hp
    dsimp only
    rw [hmethod]
    exact ⟨by decide, _, ranks_bayer4, fun y x => rfl⟩
  | bayer8 =>
    rw [hmethod] at hp
    obtain rfl := Option.some.inj hp
    dsimp only
    rw [hmethod]
    exact ⟨by decide, _, ranks_bayer8, fun y x => rfl⟩
  | clustered =>
    rw [hmethod] at hp
    obtain rfl := Option.some.inj hp
    have hside : 0 < clusterSide p ∧ clusterSide p ≤ 16 := by
      unfold clusterSide
      split_ifs <;> omega
    dsimp only
    rw [hmethod]
    exact ⟨hside.1, _, ranks_clustered hside.1 hside.2, fun y x => rfl⟩
  | threshold | blueNoise | floydSteinberg =>
    rw [hmethod] at hp
    exact absurd hp (by simp)

/-- An ordered screen is none of the error diffusion. -/
theorem orderedSide_screen {p : HtParams} {c : Nat} (hp : orderedSide p = some c) :
    p.method ≠ .floydSteinberg := by
  intro hm
  unfold orderedSide at hp
  rw [hm] at hp
  exact absurd hp (by simp)

/-! ## Pages of one ink -/

/-- Consecutive lines from line `y` on, all of ink `v`. -/
def ConstantTone (v : UInt8) (width : Nat) : Nat → List HtCall → Prop
  | _, [] => True
  | y, c :: calls => c.y = y ∧ c.Fits width ∧ (∀ x < width, byteAt c.ink x = v) ∧
    ConstantTone v width (y + 1) calls

/-- How many pixels a run of lines blackens. -/
def blackPixels (width : Nat) : Halftoner → List HtCall → Nat
  | _, [] => 0
  | ht, c :: calls => Nat.count (fun x => Bits.get (halftoneBits ht c) x = true) width +
    blackPixels width (halftoneStep ht c) calls

/-- A line of one ink is black where the ink is above the threshold. -/
theorem count_halftoneBits {ht : Halftoner} (hm : ht.params.method ≠ .floydSteinberg) {v : UInt8}
    {c : HtCall} (hfits : c.Fits ht.width) (hink : ∀ x < ht.width, byteAt c.ink x = v) :
    Nat.count (fun x => Bits.get (halftoneBits ht c) x = true) ht.width =
      ∑ x ∈ Finset.range ht.width, if v > screenThreshold ht c.y x then 1 else 0 := by
  rw [Nat.count_eq_card_filter_range, Finset.card_filter]
  apply Finset.sum_congr rfl
  intro x hx
  have hlt := Finset.mem_range.mp hx
  have hpixel : Bits.get (halftoneBits ht c) x = true ↔ v > screenThreshold ht c.y x := by
    rw [halftoneBits, halftoneLine_screen hm, get_screenLine _ _ hfits.room, get_cleared hfits hlt,
      Bool.or_false, decide_eq_true_eq, hink x hlt, and_iff_right hlt]
  simp only [hpixel]

theorem blackPixels_screen {ht : Halftoner} (hm : ht.params.method ≠ .floydSteinberg) {v : UInt8}
    {y : Nat} {calls : List HtCall} (hcalls : ConstantTone v ht.width y calls) :
    blackPixels ht.width ht calls = ∑ i ∈ Finset.range calls.length,
      ∑ x ∈ Finset.range ht.width, if v > screenThreshold ht (y + i) x then 1 else 0 := by
  induction calls generalizing y with
  | nil => rfl
  | cons c calls ih =>
    obtain ⟨hy, hfits, hink, hrest⟩ := hcalls
    have hstep : halftoneStep ht c = ht := by
      rw [halftoneStep, halftoneLine_screen hm]
    rw [blackPixels, hstep, ih hrest, count_halftoneBits hm hfits hink, hy, List.length_cons,
      Finset.sum_range_succ', Nat.add_comm, Nat.add_zero]
    congr 1
    apply Finset.sum_congr rfl
    intro i _
    rw [Nat.add_right_comm, Nat.add_assoc]

/-- Ordered screens reproduce constant tone exactly: over whole cells in both
directions, wherever the lines start, every ink blackens in each cell the pixels
whose rank has a threshold below the ink. -/
theorem constant_tone (p : HtParams) {c : Nat} (hp : orderedSide p = some c) {width : Nat}
    (hwidth : c ∣ width) (state : Option (List Int)) (before : List HtCall) {v : UInt8} {y : Nat}
    {calls : List HtCall} (hcalls : ConstantTone v width y calls) (hlines : c ∣ calls.length) :
    blackPixels width (Run.run halftoneStep (halftonerInit p width state).2 before) calls =
      width / c * (calls.length / c) *
        Nat.count (fun r => (2 * r + 1) * 256 / (2 * (c * c)) < v.toNat) (c * c) := by
  obtain ⟨hc, m, hranks, hthreshold⟩ := orderedSide_threshold hp width state
  obtain ⟨hparams, hwidth'⟩ := halftonerInit_params p width state
  have hm : (halftonerInit p width state).2.params.method ≠ .floydSteinberg := by
    rw [hparams]
    exact orderedSide_screen hp
  obtain ⟨w, rfl⟩ := hwidth
  obtain ⟨l, hl⟩ := hlines
  let black (i : Nat) : Nat := if v > (scaleMatrix m (c * c) (c * c)).getD i 0 then 1 else 0
  have hpage := blackPixels_screen hm (by rw [hwidth']; exact hcalls)
  rw [hwidth'] at hpage
  -- a row of the screen over one line, and the rows of the screen over the lines
  have hrow (j : Nat) : ∑ x ∈ Finset.range (c * w), black (j * c + x % c) =
      w • ∑ x ∈ Finset.range c, black (j * c + x) := by
    have hperiodic : Function.Periodic (fun x => black (j * c + x % c)) c := fun x => by
      simp only [Nat.add_mod_right]
    have hsum := Periods.sum_periods hperiodic 0 w
    simp only [Nat.zero_add] at hsum
    rw [hsum]
    congr 1
    apply Finset.sum_congr rfl
    intro x hx
    rw [Nat.mod_eq_of_lt (Finset.mem_range.mp hx)]
  have hrows : Function.Periodic
      (fun j => w • ∑ x ∈ Finset.range c, black (j % c * c + x)) c := fun j => by
    simp only [Nat.add_mod_right]
  rw [run_screen hm, hpage, hl, Nat.mul_div_cancel_left w hc, Nat.mul_div_cancel_left l hc]
  calc ∑ i ∈ Finset.range (c * l), ∑ x ∈ Finset.range (c * w),
        (if v > screenThreshold (halftonerInit p (c * w) state).2 (y + i) x then 1 else 0)
      = ∑ i ∈ Finset.range (c * l), w • ∑ x ∈ Finset.range c, black ((y + i) % c * c + x) := by
        apply Finset.sum_congr rfl
        intro i _
        simp only [hthreshold]
        exact hrow ((y + i) % c)
    _ = l • ∑ j ∈ Finset.range c, w • ∑ x ∈ Finset.range c, black (j % c * c + x) :=
        Periods.sum_periods hrows y l
    _ = l • (w • ∑ i ∈ Finset.range (c * c), black i) := by
        rw [Finset.sum_nsmul, ← Periods.sum_grid black c c]
        congr 2
        apply Finset.sum_congr rfl
        intro j hj
        rw [Nat.mod_eq_of_lt (Finset.mem_range.mp hj)]
    _ = w * l * Nat.count (fun r => rankThreshold (c * c) r < v.toNat) (c * c) := by
        rw [sum_ranks hranks v, smul_eq_mul, smul_eq_mul, Nat.mul_comm w l, Nat.mul_assoc]

/-- Ink 100 on five lines of ten pixels, from line 3 on, with a clustered screen
of cell 5. -/
theorem constant_tone_cell5 :
    blackPixels 10 (Run.run halftoneStep (halftonerInit ⟨.clustered, 127, 5⟩ 10 none).2
        [⟨[7, 7], 0, [0, 0]⟩])
      ((List.range' 3 5).map fun y => ⟨List.replicate 10 100, y, [0, 0]⟩) =
      10 / 5 * (5 / 5) * Nat.count (fun r => (2 * r + 1) * 256 / (2 * (5 * 5)) < 100) (5 * 5) := by
  have hcalls : ConstantTone 100 10 3
      ((List.range' 3 5).map fun y => ⟨List.replicate 10 100, y, [0, 0]⟩) := by
    simp only [List.range', List.map_cons, List.map_nil, ConstantTone, HtCall.Fits]
    decide
  exact constant_tone ⟨.clustered, 127, 5⟩ rfl (Dvd.intro 2 rfl) none [⟨[7, 7], 0, [0, 0]⟩] hcalls
    (Dvd.intro 1 rfl)

end Airbridge.Halftone
