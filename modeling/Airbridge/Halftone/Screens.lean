import Airbridge.Halftone.Diffusion
import Airbridge.Lib.Turns

/-!
# The ends of the ink scale

Ink 255 should be black and ink 0 white with every method.  A screen never
blackens ink 0, and blackens ink 255 wherever its threshold is below 255.  The
thresholds of an ordered matrix are its ranks scaled by the number of levels,
and the highest rank of `n` levels becomes 255 from 128 levels on: a clustered
screen of cell 12 or more has a cell that no ink blackens.
-/

namespace Airbridge.Halftone

open Airbridge.Qpdl (Bytes byteAt)

/-! ## Thresholds -/

/-- The threshold of a screen for pixel `x` of line `y`. -/
def screenThreshold (ht : Halftoner) (y x : Nat) : UInt8 :=
  match ht.params.method with
  | .threshold => ht.params.threshold
  | .blueNoise => UInt8.ofNat ((bluenoise64.getD (y % 64) []).getD (x % 64) 0)
  | _ => ht.matrix.getD (y % ht.cell * ht.cell + x % ht.cell) 0

/-- Without error diffusion a line is its screen over a cleared buffer. -/
theorem halftoneLine_screen {ht : Halftoner} (hm : ht.params.method ≠ .floydSteinberg)
    (ink : Bytes) (y : Nat) (bits : Bytes) :
    halftoneLine ht ink y bits = (ht, screenLine ink ht.width (screenThreshold ht y)
      (Buffer.store bits 0 (List.replicate ((ht.width + 7) / 8) 0))) := by
  unfold halftoneLine screenThreshold
  cases hmethod : ht.params.method with
  | floydSteinberg => exact absurd hmethod hm
  | _ => rfl

/-- A screen is exact if and only if its threshold is below 255 wherever the
ink is 255. -/
theorem halftoneBits_exact_iff {ht : Halftoner} (hm : ht.params.method ≠ .floydSteinberg)
    {c : HtCall} (hc : c.Fits ht.width) :
    Exact c.ink ht.width (halftoneBits ht c) ↔
      ∀ x < ht.width, byteAt c.ink x = 255 → screenThreshold ht c.y x < 255 := by
  unfold halftoneBits
  rw [halftoneLine_screen hm]
  refine ⟨fun h x hx hink => ?_, screenLine_exact c.ink hc⟩
  have hblack := (h x hx).1 hink
  rw [get_screenLine _ _ hc.room,
    get_cleared hc hx, Bool.or_false, decide_eq_true_eq, hink] at hblack
  exact hblack.2

theorem bluenoise64_lt (y x : Nat) :
    UInt8.ofNat ((bluenoise64.getD y []).getD x 0) < 255 := by
  have hall : ∀ row ∈ bluenoise64, ∀ v ∈ row, UInt8.ofNat v < 255 := by
    decide +kernel
  have hrow : ∀ v ∈ bluenoise64.getD y [], UInt8.ofNat v < 255 :=
    Buffer.getD_of_all hall
      (fun v hv => absurd hv List.not_mem_nil) y
  exact Buffer.getD_of_all hrow (by decide) x

/-! ## Scaled ranks -/

/-- The threshold of a rank. -/
theorem getD_scaleMatrix {m : List UInt8} {n i : Nat} (hm : i < m.length) (hi : i < n) :
    (scaleMatrix m n n).getD i 0 = UInt8.ofNat ((2 * (m.getD i 0).toNat + 1) * 256 / (2 * n)) := by
  unfold scaleMatrix
  rw [List.getD_eq_getElem?_getD, List.getElem?_mapIdx, List.getElem?_eq_getElem hm,
    Option.map_some, Option.getD_some, if_pos hi, List.getD_eq_getElem _ _ hm]

/-- Among at most 256 levels the one threshold that is not below 255 is that of
the highest rank, from 128 levels on. -/
theorem scaled_lt_iff {rank n : Nat} (hrank : rank < n) (hn : n ≤ 256) :
    UInt8.ofNat ((2 * rank + 1) * 256 / (2 * n)) < 255 ↔ ¬(128 ≤ n ∧ rank = n - 1) := by
  have hle : (2 * rank + 1) * 256 / (2 * n) ≤ 255 := by
    apply Nat.le_of_lt_succ
    rw [Nat.div_lt_iff_lt_mul (by omega)]
    omega
  have hto : UInt8.ofNat ((2 * rank + 1) * 256 / (2 * n)) < 255 ↔
      (2 * rank + 1) * 256 / (2 * n) < 255 := by
    rw [UInt8.lt_iff_toNat_lt, UInt8.toNat_ofNat_of_lt' (Nat.lt_succ_of_le hle)]
    exact Iff.rfl
  rw [hto, Nat.div_lt_iff_lt_mul (by omega)]
  omega

/-! ## The clustered screen -/

/-- The free cell is one of the screen. -/
theorem nearestFree_lt {c : Nat} (hc : 0 < c) (dot : Nat) (taken : List Bool) :
    nearestFree c dot taken < c * c := by
  unfold nearestFree
  have hstep : ∀ (is : List Nat) (best : Option Int × Nat), (∀ i ∈ is, i < c * c) →
      best.2 < c * c →
      (is.foldl (fun (best : Option Int × Nat) i =>
        if taken.getD i false then best
        else
          let key := clusterKey c dot i
          if best.1.all (key < ·) then (some key, i) else best) best).2 < c * c := by
    intro is
    induction is with
    | nil => exact fun _ _ h => h
    | cons i is ih =>
      intro best his hbest
      rw [List.foldl_cons]
      refine ih _ (fun j hj => his j (List.mem_cons_of_mem _ hj)) ?_
      dsimp only
      split_ifs
      · exact hbest
      · exact his i List.mem_cons_self
      · exact hbest
  exact hstep _ _ (fun i hi => List.mem_range.mp hi) (Nat.mul_pos hc hc)

/-- The loop of `clustered` over a list of ranks. -/
def rankCells (c : Nat) (ranks : List Nat) (s : List Bool × List UInt8) :
    List Bool × List UInt8 :=
  ranks.foldl (fun (s : List Bool × List UInt8) rank =>
    let bi := nearestFree c (rank % 2) s.1
    (s.1.set bi true, s.2.set bi (UInt8.ofNat rank))) s

theorem clustered_eq (c : Nat) (m : List UInt8) :
    clustered c m = (rankCells c (List.range (c * c)) (List.replicate 256 false, m)).2 := rfl

/-- Every cell holds one of the ranks, and the matrix keeps its size. -/
theorem rankCells_lt {c n : Nat} (ranks : List Nat) (hranks : ∀ rank ∈ ranks, rank < n)
    (s : List Bool × List UInt8) (hs : ∀ v ∈ s.2, v.toNat < n) :
    (rankCells c ranks s).2.length = s.2.length ∧ ∀ v ∈ (rankCells c ranks s).2, v.toNat < n := by
  induction ranks generalizing s with
  | nil => exact ⟨rfl, hs⟩
  | cons rank ranks ih =>
    have hrank : rank < n := hranks rank List.mem_cons_self
    obtain ⟨hlen, hlt⟩ := ih (fun r hr => hranks r (List.mem_cons_of_mem _ hr))
      (s.1.set (nearestFree c (rank % 2) s.1) true,
        s.2.set (nearestFree c (rank % 2) s.1) (UInt8.ofNat rank)) (by
        intro v hv
        rcases List.mem_or_eq_of_mem_set hv with hv | rfl
        · exact hs v hv
        · rw [UInt8.toNat_ofNat']
          exact Nat.lt_of_le_of_lt (Nat.mod_le _ _) hrank)
    exact ⟨hlen.trans List.length_set, hlt⟩

/-- The matrix the halftoner starts from. -/
abbrev clearMatrix : List UInt8 := List.replicate 256 0

theorem clearMatrix_lt {n : Nat} (hn : 0 < n) : ∀ v ∈ clearMatrix, v.toNat < n := by
  intro v hv
  rw [List.eq_of_mem_replicate hv]
  exact hn

theorem length_clustered (c : Nat) : (clustered c clearMatrix).length = 256 := by
  rw [clustered_eq]
  have hlt : ∀ rank ∈ List.range (c * c), rank < c * c + 1 := fun rank hr =>
    Nat.lt_succ_of_lt (List.mem_range.mp hr)
  exact (rankCells_lt _ hlt _ (clearMatrix_lt (Nat.succ_pos _))).1.trans List.length_replicate

theorem clustered_lt {c : Nat} (hc : 0 < c) (i : Nat) :
    ((clustered c clearMatrix).getD i 0).toNat < c * c := by
  have hpos : 0 < c * c := Nat.mul_pos hc hc
  have hall : ∀ v ∈ clustered c clearMatrix, v.toNat < c * c :=
    (rankCells_lt _ (fun rank hr => List.mem_range.mp hr) _ (clearMatrix_lt hpos)).2
  have hclear : (0 : UInt8).toNat < c * c := hpos
  exact Buffer.getD_of_all (P := fun v : UInt8 => v.toNat < c * c) hall hclear i

/-! ## The highest rank -/

/-- The order in which the two dots, by turns, take the cells. -/
def Nearer (c k i j : Nat) : Prop := clusterKey c (k % 2) i < clusterKey c (k % 2) j

/-- The loop of `clustered` behind `k` turns. -/
def rankedCells (c k : Nat) : List Bool × List UInt8 :=
  rankCells c (List.range k) (List.replicate 256 false, clearMatrix)

theorem rankedCells_succ (c k : Nat) :
    rankedCells c (k + 1) =
      ((rankedCells c k).1.set (nearestFree c (k % 2) (rankedCells c k).1) true,
        (rankedCells c k).2.set (nearestFree c (k % 2) (rankedCells c k).1) (UInt8.ofNat k)) := by
  unfold rankedCells rankCells
  rw [List.range_succ, List.foldl_append]
  rfl

theorem length_rankedCells (c k : Nat) :
    (rankedCells c k).1.length = 256 ∧ (rankedCells c k).2.length = 256 := by
  induction k with
  | zero => exact ⟨List.length_replicate, List.length_replicate⟩
  | succ k ih =>
    rw [rankedCells_succ, List.length_set, List.length_set]
    exact ih

/-- A cell that is free for turn `k`. -/
def FreeAt (c k i : Nat) : Prop := i < c * c ∧ (rankedCells c k).1.getD i false = false

/-- The scan finds the free cell whose key is below the others'. -/
theorem nearestFree_least {c k i : Nat} (h : Turns.Least (Nearer c k) (FreeAt c k) i) :
    nearestFree c (k % 2) (rankedCells c k).1 = i := by
  obtain ⟨hi, hfree⟩ := h.isFree
  unfold nearestFree
  -- either the scan has met the cell, or it is still to come and the best so far is worse
  have hstep : ∀ (is : List Nat) (best : Option Int × Nat), (∀ j ∈ is, j < c * c) →
      (best = (some (clusterKey c (k % 2) i), i) ∨
        i ∈ is ∧ ∀ key ∈ best.1, clusterKey c (k % 2) i < key) →
      (is.foldl (fun (best : Option Int × Nat) j =>
        if (rankedCells c k).1.getD j false then best
        else
          let key := clusterKey c (k % 2) j
          if best.1.all (key < ·) then (some key, j) else best) best).2 = i := by
    intro is
    induction is with
    | nil =>
      rintro best - (rfl | ⟨hmem, -⟩)
      · rfl
      · exact absurd hmem List.not_mem_nil
    | cons j is ih =>
      intro best his hbest
      rw [List.foldl_cons]
      have hrest := fun j hj => his j (List.mem_cons_of_mem _ hj)
      by_cases htaken : (rankedCells c k).1.getD j false = true
      · rw [if_pos htaken]
        refine ih best hrest (hbest.imp_right fun ⟨hmem, hworse⟩ => ⟨?_, hworse⟩)
        refine (List.mem_cons.mp hmem).resolve_left ?_
        rintro rfl
        exact absurd (hfree.symm.trans htaken) Bool.false_ne_true
      rw [if_neg htaken]
      dsimp only
      by_cases heq : j = i
      · subst heq
        have hall : best.1.all (clusterKey c (k % 2) j < ·) = true ∨
            best = (some (clusterKey c (k % 2) j), j) :=
          hbest.elim .inr fun hworse => .inl (by simpa [Option.all_eq_true] using hworse.2)
        refine ih _ hrest (.inl ?_)
        rcases hall with hall | rfl
        · rw [if_pos hall]
        · exact ite_id _
      · have hkey : clusterKey c (k % 2) i < clusterKey c (k % 2) j :=
          h.first j ⟨his j List.mem_cons_self, Bool.eq_false_of_not_eq_true htaken⟩ heq
        rcases hbest with rfl | ⟨hmem, hworse⟩
        · refine ih _ hrest (.inl (if_neg ?_))
          simp [Int.le_of_lt hkey]
        · have hmem := (List.mem_cons.mp hmem).resolve_left (Ne.symm heq)
          refine ih _ hrest (.inr ⟨hmem, ?_⟩)
          split_ifs
          · simpa using hkey
          · exact hworse
  exact hstep _ _ (fun j hj => List.mem_range.mp hj)
    (.inr ⟨List.mem_range.mpr hi, fun key hkey => absurd hkey (by simp)⟩)

/-- A turn takes the nearest free cell. -/
theorem freeAt_succ {c k i : Nat} (hc16 : c ≤ 16) (h : Turns.Least (Nearer c k) (FreeAt c k) i)
    (j : Nat) : FreeAt c (k + 1) j ↔ FreeAt c k j ∧ j ≠ i := by
  have hle : c * c ≤ 16 * 16 := Nat.mul_le_mul hc16 hc16
  have hi := h.isFree.1
  have hroom := (length_rankedCells c k).1
  unfold FreeAt
  rw [rankedCells_succ, nearestFree_least h]
  by_cases heq : i = j
  · subst heq
    simp [show i < (rankedCells c k).1.length by omega]
  · simp [List.getD_eq_getElem?_getD, List.getElem?_set_ne heq, Ne.symm heq]

theorem freeAt_of_succ {c k i : Nat} (h : FreeAt c (k + 1) i) : FreeAt c k i := by
  refine ⟨h.1, ?_⟩
  have hfree := h.2
  rw [rankedCells_succ] at hfree
  by_cases heq : nearestFree c (k % 2) (rankedCells c k).1 = i
  · rw [heq] at hfree
    by_cases hroom : i < (rankedCells c k).1.length
    · simp [hroom] at hfree
    · rw [List.getD_eq_default _ _ (by omega)]
  · simpa [List.getD_eq_getElem?_getD, List.getElem?_set_ne heq] using hfree

/-- All cells, the nearest to a dot first. -/
def nearestFirst (c dot : Nat) : List Nat :=
  Turns.sortBy (fun i => (clusterKey c dot i).toNat) 8 (List.range (c * c))

/-- The row, and also the column, of the highest rank from 128 levels on. -/
def highestAt (c : Nat) : Nat := c - c / 3

/-- No two cells are as near to a dot, and the cell at `highestAt` is left for
the last turn. -/
theorem leftOver_highestAt : ∀ c ∈ [12, 13, 14, 15, 16],
    (∀ dot ∈ [0, 1], (nearestFirst c dot).IsChain
      fun i j => (clusterKey c dot i).toNat < (clusterKey c dot j).toNat) ∧
    Turns.leftOver (c * c - 1) (nearestFirst c 0) (nearestFirst c 1) =
      [highestAt c * c + highestAt c] := by
  decide +kernel

theorem ranking_nearestFirst {c dot : Nat} (hdot : dot < 2)
    (h : (nearestFirst c dot).IsChain
      fun i j => (clusterKey c dot i).toNat < (clusterKey c dot j).toNat) :
    Turns.Ranking (Nearer c dot) (FreeAt c 0) (nearestFirst c dot) := by
  refine ⟨fun i => ?_, ?_⟩
  · rw [nearestFirst, (Turns.sortBy_perm _ _ _).mem_iff, List.mem_range]
    refine (and_iff_left ?_).symm
    exact Buffer.getD_of_all (P := (· = false)) (fun _ hv => List.eq_of_mem_replicate hv) rfl i
  · have htrans : IsTrans Nat fun i j => (clusterKey c dot i).toNat < (clusterKey c dot j).toNat :=
      ⟨fun _ _ _ => Nat.lt_trans⟩
    refine (List.isChain_iff_pairwise.mp h).imp fun {i j} hlt => ?_
    unfold Nearer
    rw [Nat.mod_eq_of_lt hdot]
    omega

/-- The cell that the last turn takes in a screen of 128 levels or more. -/
theorem least_highestAt {c n : Nat} (hlo : 12 ≤ c) (hhi : c ≤ 16) (hn : c * c = n + 1) :
    Turns.Least (Nearer c n) (FreeAt c n) (highestAt c * c + highestAt c) := by
  have hmem : c ∈ [12, 13, 14, 15, 16] := by
    simp only [List.mem_cons, List.not_mem_nil, or_false]
    omega
  obtain ⟨hchain, hleft⟩ := leftOver_highestAt c hmem
  have hirrefl (k : Nat) : Std.Irrefl (Nearer c k) := ⟨fun i => Int.lt_irrefl _⟩
  have hturns (k : Nat) : Nearer c (k + 2) = Nearer c k := by
    unfold Nearer
    rw [Nat.add_mod_right]
  have hranking := Turns.ranking_leftOver hirrefl hturns
    (fun k i hleast j => freeAt_succ hhi hleast j)
    (fun k hnone i hfree => hnone i (freeAt_of_succ hfree))
    (ranking_nearestFirst Nat.two_pos (hchain 0 (by simp)))
    (ranking_nearestFirst Nat.one_lt_two (hchain 1 (by simp))) n
  rw [hn, Nat.add_sub_cancel] at hleft
  simp only [Nat.zero_add, hleft] at hranking
  exact hranking.least

/-- The cell of the highest rank of a screen of 128 levels or more. -/
theorem clustered_highest {c : Nat} (hlo : 12 ≤ c) (hhi : c ≤ 16) {i : Nat} (hi : i < c * c) :
    ((clustered c clearMatrix).getD i 0).toNat = c * c - 1 ↔
      i = highestAt c * c + highestAt c := by
  have hle : c * c ≤ 16 * 16 := Nat.mul_le_mul hhi hhi
  have hge : 12 * 12 ≤ c * c := Nat.mul_le_mul hlo hlo
  obtain ⟨n, hn⟩ : ∃ n, c * c = n + 1 := ⟨c * c - 1, by omega⟩
  have hlast := nearestFree_least (least_highestAt hlo hhi hn)
  have hclustered : clustered c clearMatrix = (rankedCells c (n + 1)).2 := by
    rw [clustered_eq, hn]
    rfl
  have hroom := (length_rankedCells c n).2
  rw [hclustered, rankedCells_succ, hlast, hn, Nat.add_sub_cancel]
  by_cases heq : highestAt c * c + highestAt c = i
  · subst heq
    refine iff_of_true ?_ rfl
    rw [List.getD_eq_getElem?_getD, List.getElem?_set_self (by omega), Option.getD_some,
      UInt8.toNat_ofNat_of_lt' (show n < 256 by omega)]
  · refine iff_of_false ?_ (Ne.symm heq)
    -- the turns before the last have lower ranks
    have hlt : ∀ rank ∈ List.range n, rank < n := fun rank hr => List.mem_range.mp hr
    have hbelow := (rankCells_lt (c := c) _ hlt (List.replicate 256 false, clearMatrix)
      (clearMatrix_lt (by omega))).2
    have hzero : (0 : UInt8).toNat < n := show 0 < n by omega
    have hother : ((rankedCells c n).2.getD i 0).toNat < n :=
      Buffer.getD_of_all (P := fun v : UInt8 => v.toNat < n) hbelow hzero i
    rw [List.getD_eq_getElem?_getD, List.getElem?_set_ne heq, ← List.getD_eq_getElem?_getD]
    omega

/-! ## Every method -/

/-- The side of the clustered screen. -/
def clusterSide (p : HtParams) : Nat :=
  if 4 ≤ p.clusterCell.toNat ∧ p.clusterCell.toNat ≤ 16 then p.clusterCell.toNat else 8

/-- The pixels of a clustered screen with 128 levels or more that fall on the
cell of the highest rank. -/
def Missed (p : HtParams) (y x : Nat) : Prop :=
  p.method = .clustered ∧ 12 ≤ p.clusterCell.toNat ∧ p.clusterCell.toNat ≤ 16 ∧
    y % p.clusterCell.toNat = highestAt p.clusterCell.toNat ∧
    x % p.clusterCell.toNat = highestAt p.clusterCell.toNat

theorem highestAt_lt {c : Nat} (hlo : 3 ≤ c) : highestAt c < c := by
  unfold highestAt
  omega

theorem cell_lt {c : Nat} (hc : 0 < c) (y x : Nat) : y % c * c + x % c < c * c := by
  have hy : y % c + 1 ≤ c := Nat.mod_lt _ hc
  have hx : x % c < c := Nat.mod_lt _ hc
  have hmul : (y % c + 1) * c ≤ c * c := Nat.mul_le_mul_right c hy
  rw [Nat.add_mul, Nat.one_mul] at hmul
  omega

theorem cell_eq_iff {c a b : Nat} (hb : b < c) (y : Nat) (x : Nat) (hx : x < c) :
    y * c + x = a * c + b ↔ y = a ∧ x = b := by
  constructor
  · intro h
    have hdiv := congrArg (· / c) h
    have hmod := congrArg (· % c) h
    have hc : 0 < c := Nat.zero_lt_of_lt hb
    simp only [Nat.mul_add_mod', Nat.mod_eq_of_lt hb, Nat.mod_eq_of_lt hx] at hmod
    rw [hmod] at h
    exact ⟨Nat.eq_of_mul_eq_mul_right hc (Nat.add_right_cancel h), hmod⟩
  · rintro ⟨rfl, rfl⟩
    rfl

/-- The clustered screen has a threshold of 255 where no ink is black, and
nowhere else. -/
theorem clustered_threshold_lt {p : HtParams} (hm : p.method = .clustered) (y x : Nat) :
    let c := clusterSide p
    (scaleMatrix (clustered c clearMatrix) (c * c) (c * c)).getD (y % c * c + x % c) 0 < 255 ↔
      ¬Missed p y x := by
  intro c
  have hc : 4 ≤ c ∧ c ≤ 16 := by
    show 4 ≤ clusterSide p ∧ clusterSide p ≤ 16
    unfold clusterSide
    split_ifs <;> omega
  have hle : c * c ≤ 16 * 16 := Nat.mul_le_mul hc.2 hc.2
  have hcell := cell_lt (show 0 < c by omega) y x
  rw [getD_scaleMatrix (by rw [length_clustered]; omega) hcell,
    scaled_lt_iff (clustered_lt (by omega) _) hle]
  refine not_congr ?_
  unfold Missed
  by_cases hside : 4 ≤ p.clusterCell.toNat ∧ p.clusterCell.toNat ≤ 16
  · have hceq : c = p.clusterCell.toNat := if_pos hside
    rw [← hceq]
    have h12 : 128 ≤ c * c ↔ 12 ≤ c := by
      constructor
      · intro h
        by_contra hlt
        have := Nat.mul_le_mul (show c ≤ 11 by omega) (show c ≤ 11 by omega)
        omega
      · intro h
        have := Nat.mul_le_mul h h
        omega
    rw [h12]
    have hrank (hlo : 12 ≤ c) : ((clustered c clearMatrix).getD (y % c * c + x % c) 0).toNat =
        c * c - 1 ↔ y % c = highestAt c ∧ x % c = highestAt c :=
      (clustered_highest hlo hc.2 hcell).trans
        (cell_eq_iff (highestAt_lt (by omega)) _ _ (Nat.mod_lt _ (by omega)))
    exact ⟨fun h => ⟨hm, h.1, hc.2, (hrank h.1).mp h.2⟩,
      fun h => ⟨h.2.1, (hrank h.2.1).mpr h.2.2.2⟩⟩
  · have hceq : c = 8 := if_neg hside
    constructor
    · intro h
      rw [hceq] at h
      omega
    · intro h
      omega

theorem exists_missed_iff (p : HtParams) :
    (∃ y x, Missed p y x) ↔
      p.method = .clustered ∧ 12 ≤ p.clusterCell.toNat ∧ p.clusterCell.toNat ≤ 16 := by
  refine ⟨fun ⟨y, x, h⟩ => ⟨h.1, h.2.1, h.2.2.1⟩, fun ⟨hm, hlo, hhi⟩ => ?_⟩
  have hhigh := Nat.mod_eq_of_lt (highestAt_lt (show 3 ≤ p.clusterCell.toNat by omega))
  exact ⟨_, _, hm, hlo, hhi, hhigh, hhigh⟩

/-- Every threshold of a screen is below 255, but for the cell that a clustered
screen misses. -/
theorem screenThreshold_lt_iff {p : HtParams} (hm : p.method ≠ .floydSteinberg)
    (hthreshold : p.threshold.toNat < 255) (width : Nat) (state : Option (List Int)) (y x : Nat) :
    screenThreshold (halftonerInit p width state).2 y x < 255 ↔ ¬Missed p y x := by
  have hother (h : p.method ≠ .clustered) : ¬Missed p y x := fun hmissed => h hmissed.1
  unfold screenThreshold halftonerInit
  cases hmethod : p.method with
  | threshold =>
    refine iff_of_true ?_ (hother (by rw [hmethod]; decide))
    dsimp only
    rw [hmethod]
    exact UInt8.lt_iff_toNat_lt.mpr hthreshold
  | bayer4 =>
    refine iff_of_true ?_ (hother (by rw [hmethod]; decide))
    dsimp only
    rw [hmethod]
    have hall : ∀ i < 4 * 4, (scaleMatrix (bayer 4 clearMatrix) 16 16).getD i 0 < 255 := by
      decide +kernel
    exact hall _ (cell_lt (by decide) y x)
  | bayer8 =>
    refine iff_of_true ?_ (hother (by rw [hmethod]; decide))
    dsimp only
    rw [hmethod]
    have hall : ∀ i < 8 * 8, (scaleMatrix (bayer 8 clearMatrix) 64 64).getD i 0 < 255 := by
      decide +kernel
    exact hall _ (cell_lt (by decide) y x)
  | clustered =>
    dsimp only
    rw [hmethod]
    exact clustered_threshold_lt hmethod y x
  | blueNoise =>
    refine iff_of_true ?_ (hother (by rw [hmethod]; decide))
    dsimp only
    rw [hmethod]
    exact bluenoise64_lt _ _
  | floydSteinberg => exact absurd hmethod hm

theorem halftonerInit_params (p : HtParams) (width : Nat) (state : Option (List Int)) :
    (halftonerInit p width state).2.params = p ∧ (halftonerInit p width state).2.width = width := by
  unfold halftonerInit
  cases p.method with
  | floydSteinberg =>
    cases state with
    | none => exact ⟨rfl, rfl⟩
    | some state =>
      dsimp only
      split_ifs
      · exact ⟨rfl, rfl⟩
      · exact ⟨rfl, rfl⟩
  | _ => exact ⟨rfl, rfl⟩

/-- A screen is the same for every line. -/
theorem run_screen {ht : Halftoner} (hm : ht.params.method ≠ .floydSteinberg)
    (calls : List HtCall) : Run.run halftoneStep ht calls = ht := by
  induction calls with
  | nil => rfl
  | cons c calls ih =>
    have hstep : halftoneStep ht c = ht := by
      unfold halftoneStep
      rw [halftoneLine_screen hm]
    rw [Run.run_cons, hstep, ih]

/-- On every line of every page solid black and paper white are exact, but for
the solid pixels that a clustered screen misses; and it misses some if and only
if its cell is 12 to 16. -/
theorem halftone_exact_iff (p : HtParams) (hthreshold : p.threshold.toNat < 255) (width : Nat)
    (state : Option (List Int)) (hinit : (halftonerInit p width state).1 = 0)
    (before : List HtCall) (c : HtCall) (hc : c.Fits width) :
    (Exact c.ink width
        (halftoneBits (Run.run halftoneStep (halftonerInit p width state).2 before) c) ↔
      ∀ x < width, byteAt c.ink x = 255 → ¬Missed p c.y x) ∧
    ((∃ y x, Missed p y x) ↔
      p.method = .clustered ∧ 12 ≤ p.clusterCell.toNat ∧ p.clusterCell.toNat ≤ 16) := by
  refine ⟨?_, exists_missed_iff p⟩
  by_cases hm : p.method = .floydSteinberg
  · refine iff_of_true (halftoneBits_rested (run_rested hm hinit before) hc) ?_
    intro x _ _ hmissed
    exact absurd (hm.symm.trans hmissed.1) (by decide)
  · obtain ⟨hparams, hwidth⟩ := halftonerInit_params p width state
    have hscreen : (halftonerInit p width state).2.params.method ≠ .floydSteinberg := by
      rw [hparams]
      exact hm
    have hfits : c.Fits (halftonerInit p width state).2.width := by
      rw [hwidth]
      exact hc
    have hiff := halftoneBits_exact_iff hscreen hfits
    rw [hwidth] at hiff
    rw [run_screen hscreen, hiff]
    refine forall_congr' fun x => imp_congr_right fun _ => imp_congr_right fun _ => ?_
    exact screenThreshold_lt_iff hm hthreshold width state c.y x

/-- The clustered screen of cell 12. -/
def cell12 : HtParams := ⟨.clustered, 127, 12⟩

/-- Behind a gray line, solid lines of the screen of cell 12: the eighth is
exact, and the ninth is not. -/
theorem halftone_exact_iff_cell12 :
    let before := [⟨List.replicate 12 100, 3, [1, 1]⟩]
    let solid : Bytes := List.replicate 12 255
    let bits := fun y => halftoneBits
      (Run.run halftoneStep (halftonerInit cell12 12 none).2 before) ⟨solid, y, [0, 0]⟩
    Exact solid 12 (bits 7) ∧ ¬Exact solid 12 (bits 8) := by
  intro before solid bits
  have hline (y : Nat) : Exact solid 12 (bits y) ↔
      ∀ x < 12, byteAt solid x = 255 → ¬Missed cell12 y x :=
    (halftone_exact_iff cell12 (by decide) 12 none rfl before ⟨solid, y, [0, 0]⟩
      (Nat.le_refl 2)).1
  constructor
  · exact (hline 7).mpr fun x _ _ hmissed => absurd hmissed.2.2.2.1 (by decide)
  · intro hexact
    exact (hline 8).mp hexact 8 (by decide) rfl ⟨rfl, by decide, by decide, rfl, rfl⟩

/-- On a solid page of twelve lines of twelve pixels the screen of cell 12
leaves pixel 8 of line 8 white. -/
theorem solid_missed_cell12 :
    ¬∀ y < 12, Exact (List.replicate 12 255) 12
      (halftoneBits (halftonerInit cell12 12 none).2 ⟨List.replicate 12 255, y, [0, 0]⟩) := by
  intro h
  have hscreen : (halftonerInit cell12 12 none).2.params.method ≠ .floydSteinberg := by
    rw [(halftonerInit_params cell12 12 none).1]
    decide
  have hfits : HtCall.Fits ⟨List.replicate 12 255, 8, [0, 0]⟩
      (halftonerInit cell12 12 none).2.width := by
    rw [(halftonerInit_params cell12 12 none).2]
    exact Nat.le_refl 2
  have hiff := halftoneBits_exact_iff hscreen hfits
  rw [(halftonerInit_params cell12 12 none).2] at hiff
  have hlt := hiff.mp (h 8 (by decide)) 8 (by decide) rfl
  have hmissed : Missed cell12 8 8 := ⟨rfl, by decide, by decide, rfl, rfl⟩
  exact (screenThreshold_lt_iff (by decide) (by decide) 12 none 8 8).mp hlt hmissed

end Airbridge.Halftone
