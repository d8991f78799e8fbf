import Airbridge.Lib.FirstBest
import Airbridge.Qpdl.ChooseTable
import Airbridge.Qpdl.Encode11
import Mathlib.Data.List.GetD

/-!
# What the chosen table holds

The choice of a table has three parts, and each has its own lemma.

* The pre-parse.  `preParse` is the list of its matches, and the credit of a
  distance is the length of the matches at it (`chooseCredit_eq`).  A stored
  position is never ahead of the parse (`Below`), so every credited distance
  reaches back into the band, and since the matches do not overlap, the
  32-bit counters never wrap.
* The selection.  `takeCredited_spec` says that the loop which destroys the
  credit array lists the credited distances in order, the best ones first.
* The fill.  `fillDefault_eq` gives the rest of the table.
-/

namespace Airbridge.Qpdl

/-! ## The matches of the pre-parse -/

/-- A match of the pre-parse. -/
structure PreMatch where
  pos : Nat
  length : Nat
  dist : Nat
deriving Repr, DecidableEq

/-- The bytes at `pos` repeat at the distance. -/
structure PreMatch.Real (m : PreMatch) (band : Bytes) : Prop where
  three_le : 3 ≤ m.length
  inside : m.pos + m.length ≤ band.length
  dist_pos : 1 ≤ m.dist
  dist_max : m.dist ≤ 4096
  dist_le : m.dist ≤ m.pos
  same : ∀ k < m.length, byteAt band (m.pos + k) = byteAt band (m.pos - m.dist + k)

/-- The pre-parse without its counters: the matches it takes from `pos` on. -/
def preParse (band : Bytes) (pos : Nat) (slots : Slots) : List PreMatch :=
  if pos + 3 ≤ band.length then
    let best := chooseBest band slots pos
    let slots' := slotInsert band slots pos
    if _h : best.1 = 0 then preParse band (pos + 1) slots'
    else
      let skipped := (List.range' (pos + 1) (best.1 - 1)).takeWhile fun q => q + 3 ≤ band.length
      ⟨pos, best.1, best.2⟩ :: preParse band (pos + best.1) (skipped.foldl (slotInsert band) slots')
  else []
termination_by band.length - pos
decreasing_by
  · omega
  · have : (chooseBest band slots pos).1 ≠ 0 := _h
    omega

/-- The length of the matches at distance `d`. -/
def matchedAt (ms : List PreMatch) (d : Nat) : Nat :=
  ((ms.filter fun m => m.dist = d).map PreMatch.length).sum

theorem matchedAt_cons (m : PreMatch) (ms : List PreMatch) (d : Nat) :
    matchedAt (m :: ms) d = (if m.dist = d then m.length else 0) + matchedAt ms d := by
  unfold matchedAt
  rw [List.filter_cons]
  split_ifs with h1 h2 h2
  · rw [List.map_cons, List.sum_cons]
  · simp_all
  · simp_all
  · rw [Nat.zero_add]

/-! ## Stored positions -/

/-- No stored position is ahead of `pos`; a position is stored plus one. -/
def Below (slots : Slots) (pos : Nat) : Prop := ∀ row ∈ slots, ∀ s ∈ row, s ≤ pos

theorem Below.mono {slots : Slots} {pos pos' : Nat} (h : Below slots pos) (hle : pos ≤ pos') :
    Below slots pos' :=
  fun row hrow s hs => (h row hrow s hs).trans hle

theorem Below.getD {slots : Slots} {pos : Nat} (h : Below slots pos) (i : Nat) :
    ∀ s ∈ slots.getD i [], s ≤ pos := by
  rw [List.getD_eq_getElem?_getD]
  cases hrow : slots[i]? with
  | none =>
    intro s hs
    cases hs
  | some row => exact h row (List.mem_of_getElem? hrow)

theorem slotInsert_below {band : Bytes} {slots : Slots} {q pos : Nat} (h : Below slots pos)
    (hq : q + 1 ≤ pos) : Below (slotInsert band slots q) pos := by
  intro row hrow s hs
  rcases List.mem_or_eq_of_mem_set hrow with hold | rfl
  · exact h row hold s hs
  · rcases List.mem_cons.mp hs with rfl | hs
    · exact (Nat.mod_le _ _).trans hq
    · exact h.getD _ s (List.mem_of_mem_take hs)

/-- The positions a match skips are stored while the parse moves past them. -/
theorem foldl_slotInsert_below {band : Bytes} {slots : Slots} {pos : Nat} (qs : List Nat)
    (h : Below slots pos) (hqs : ∀ q ∈ qs, q + 1 ≤ pos) :
    Below (qs.foldl (slotInsert band) slots) pos := by
  induction qs generalizing slots with
  | nil => exact h
  | cons q qs ih =>
    rw [List.foldl_cons]
    apply ih
    · exact slotInsert_below h (hqs q List.mem_cons_self)
    · intro q' hq'
      exact hqs q' (List.mem_cons_of_mem q hq')

/-! ## The best match at a position -/

/-- The state `(best, best_d)` of the two loops over distances: nothing, or a
match they may credit. -/
def Tried (band : Bytes) (pos max : Nat) (best : Nat × Nat) : Prop :=
  best.1 = 0 ∨ 3 ≤ best.1 ∧ 1 ≤ best.2 ∧ best.2 ≤ 4096 ∧ best.2 ≤ pos ∧
    best.1 = matchLen band pos best.2 max

theorem tryDistance_tried {band : Bytes} {pos max d : Nat} {best : Nat × Nat}
    (h : Tried band pos max best) (hd : 1 ≤ d) (hmax : d ≤ 4096) (hpos : d ≤ pos) :
    Tried band pos max (tryDistance band pos max best d) := by
  unfold tryDistance
  dsimp only
  split_ifs with hbetter
  · exact .inr ⟨hbetter.1, hd, hmax, hpos, rfl⟩
  · exact h

theorem trySlots_tried {band : Bytes} {pos max : Nat} {row : List Nat} {best : Nat × Nat}
    (h : Tried band pos max best) (hrow : ∀ s ∈ row, s ≤ pos) :
    Tried band pos max (trySlots band pos max row best) := by
  induction row generalizing best with
  | nil => exact h
  | cons s row ih =>
    have hs := hrow s List.mem_cons_self
    have hrest : ∀ s' ∈ row, s' ≤ pos := fun s' hs' => hrow s' (List.mem_cons_of_mem s hs')
    rw [trySlots]
    dsimp only
    split_ifs with hempty hfar
    · exact h
    · exact ih h hrest
    · -- a stored position lies strictly in the past
      exact ih (tryDistance_tried h (by omega) (by omega) (by omega)) hrest

theorem tryColumns_tried {band : Bytes} {pos max : Nat} {ds : List Nat} {best : Nat × Nat}
    (h : Tried band pos max best) (hds : ∀ d ∈ ds, 1 ≤ d ∧ d ≤ 4096) :
    Tried band pos max (tryColumns band pos max ds best) := by
  induction ds generalizing best with
  | nil => exact h
  | cons d ds ih =>
    have hd := hds d List.mem_cons_self
    rw [tryColumns]
    split_ifs with hfar
    · exact h
    · apply ih
      · exact tryDistance_tried h hd.1 hd.2 (by omega)
      · intro d' hd'
        exact hds d' (List.mem_cons_of_mem d hd')

/-- A match the pre-parse takes is one. -/
theorem chooseBest_real {band : Bytes} {slots : Slots} {pos : Nat} (hbelow : Below slots pos)
    (hpos : pos ≤ band.length) (hne : (chooseBest band slots pos).1 ≠ 0) :
    PreMatch.Real ⟨pos, (chooseBest band slots pos).1, (chooseBest band slots pos).2⟩ band := by
  have htried : Tried band pos
      (if band.length - pos > 514 then 514 else band.length - pos) (chooseBest band slots pos) := by
    apply tryColumns_tried
    · exact trySlots_tried (.inl rfl) (hbelow.getD _)
    · decide
  obtain ⟨hthree, hd, hmax, hle, hlen⟩ := htried.resolve_left hne
  have hmatch := matchLen_le band pos (chooseBest band slots pos).2
    (if band.length - pos > 514 then 514 else band.length - pos)
  rw [← hlen] at hmatch
  refine ⟨hthree, ?_, hd, hmax, hle, ?_⟩
  · dsimp only
    split_ifs at hmatch <;> omega
  · intro k hk
    exact matchLen_eq_bytes _ _ _ _ _ (hk.trans_eq hlen)

/-- What the parse does at a position where it takes a match. -/
theorem skipped_below {band : Bytes} {slots : Slots} {pos n : Nat} (h : Below slots pos)
    (hn : n ≠ 0) :
    Below (((List.range' (pos + 1) (n - 1)).takeWhile fun q => q + 3 ≤ band.length).foldl
      (slotInsert band) (slotInsert band slots pos)) (pos + n) := by
  apply foldl_slotInsert_below
  · exact slotInsert_below (h.mono (by omega)) (by omega)
  · intro q hq
    have hrange := List.mem_range'_1.mp ((List.takeWhile_sublist _).subset hq)
    omega

/-- The matches of the pre-parse are real and do not overlap. -/
theorem preParse_spec {band : Bytes} {pos : Nat} {slots : Slots} (hbelow : Below slots pos)
    (hpos : pos ≤ band.length) :
    (∀ m ∈ preParse band pos slots, m.Real band) ∧
      ((preParse band pos slots).map PreMatch.length).sum ≤ band.length - pos := by
  fun_induction preParse band pos slots with
  | case1 pos slots hlt best slots' h ih =>
    obtain ⟨hreal, hsum⟩ := ih (slotInsert_below (hbelow.mono (by omega)) (by omega)) (by omega)
    exact ⟨hreal, by omega⟩
  | case2 pos slots hlt best slots' h skipped ih =>
    have hm : PreMatch.Real ⟨pos, best.1, best.2⟩ band := chooseBest_real hbelow hpos h
    have hinside : pos + best.1 ≤ band.length := hm.inside
    obtain ⟨hreal, hsum⟩ := ih (skipped_below hbelow h) hinside
    refine ⟨?_, ?_⟩
    · intro m hmem
      rcases List.mem_cons.mp hmem with rfl | hmem
      · exact hm
      · exact hreal m hmem
    · rw [List.map_cons, List.sum_cons]
      dsimp only
      omega
  | case3 pos slots hge => exact ⟨fun m hm => absurd hm List.not_mem_nil, Nat.zero_le _⟩

/-! ## The credit of a distance -/

theorem getD_le_sum (l : List Nat) (i : Nat) : l.getD i 0 ≤ l.sum := by
  induction l generalizing i with
  | nil => simp
  | cons a l ih =>
    cases i with
    | zero => simp
    | succ i =>
      have := ih i
      rw [List.getD_cons_succ, List.sum_cons]
      omega

theorem sum_set_add {l : List Nat} {i : Nat} (n : Nat) (h : i < l.length) :
    (l.set i (l.getD i 0 + n)).sum = l.sum + n := by
  induction l generalizing i with
  | nil => simp at h
  | cons a l ih =>
    cases i with
    | zero =>
      rw [List.getD_cons_zero, List.set_cons_zero, List.sum_cons, List.sum_cons]
      omega
    | succ i =>
      have := ih (i := i) (by simpa using h)
      rw [List.getD_cons_succ, List.set_cons_succ, List.sum_cons, List.sum_cons]
      omega

theorem getD_set (l : List Nat) (i j v : Nat) (h : i < l.length) :
    (l.set i v).getD j 0 = if i = j then v else l.getD j 0 := by
  rw [List.getD_eq_getElem?_getD, List.getElem?_set, List.getD_eq_getElem?_getD]
  split_ifs with hij <;> rfl

/-- The counters hold the credit of the matches and never wrap. -/
theorem chooseCredit_eq {band : Bytes} {pos : Nat} {credit : List Nat} {slots : Slots}
    (hbelow : Below slots pos) (hpos : pos ≤ band.length) (hlength : credit.length = 4097)
    (hroom : credit.sum + (band.length - pos) < 2 ^ 32) :
    let credit' := chooseCredit band pos credit slots
    credit'.length = 4097 ∧
      (∀ d, credit'.getD d 0 = credit.getD d 0 + matchedAt (preParse band pos slots) d) ∧
      credit'.sum = credit.sum + ((preParse band pos slots).map PreMatch.length).sum := by
  fun_induction chooseCredit band pos credit slots with
  | case1 pos credit slots hlt best slots' h ih =>
    have hparse : preParse band pos slots = preParse band (pos + 1) slots' := by
      rw [preParse, if_pos hlt]
      exact dif_pos h
    rw [hparse]
    exact ih (slotInsert_below (hbelow.mono (by omega)) (by omega)) (by omega) hlength (by omega)
  | case2 pos credit slots hlt best slots' h credit' skipped ih =>
    have hparse : preParse band pos slots =
        ⟨pos, best.1, best.2⟩ :: preParse band (pos + best.1)
          (skipped.foldl (slotInsert band) slots') := by
      rw [preParse, if_pos hlt]
      exact dif_neg h
    have hm : PreMatch.Real ⟨pos, best.1, best.2⟩ band := chooseBest_real hbelow hpos h
    have hinside : pos + best.1 ≤ band.length := hm.inside
    have hd : best.2 < credit.length := by
      have := hm.dist_max
      dsimp only at this
      omega
    have hle := getD_le_sum credit best.2
    have hcredit' : credit' = credit.set best.2 (credit.getD best.2 0 + best.1) := by
      show credit.set best.2 ((credit.getD best.2 0 + best.1) % 2 ^ 32) = _
      rw [Nat.mod_eq_of_lt (by omega)]
    have hsum : credit'.sum = credit.sum + best.1 := by rw [hcredit', sum_set_add _ hd]
    have hlength' : credit'.length = 4097 := by rw [hcredit', List.length_set, hlength]
    obtain ⟨hlen, hget, htotal⟩ := ih (skipped_below hbelow h) hinside hlength' (by omega)
    refine ⟨hlen, ?_, ?_⟩
    · intro d
      rw [hget, hcredit', getD_set _ _ _ _ hd, hparse, matchedAt_cons]
      dsimp only
      split_ifs with heq
      · rw [heq]
        omega
      · omega
    · rw [htotal, hsum, hparse, List.map_cons, List.sum_cons]
      dsimp only
      omega
  | case3 pos credit slots hge =>
    rw [preParse, if_neg hge]
    exact ⟨hlength, fun d => rfl, rfl⟩

/-! ## The selection -/

/-- `a` comes before `b`: it has more credit, or as much at a smaller
distance. -/
def Outranks (credit : List Nat) (a b : Nat) : Prop :=
  credit.getD b 0 < credit.getD a 0 ∨ credit.getD b 0 = credit.getD a 0 ∧ a < b

/-- The credit of a distance the scan looks at, from 1 on. -/
def scanScore (credit : List Nat) (d : Nat) : Nat := if d = 0 then 0 else credit.getD d 0

theorem scan_firstBest (credit : List Nat) (n start : Nat) (best : Nat × Nat) (hstart : 1 ≤ start)
    (h : FirstBest (scanScore credit) start best.1 best.2) :
    let r := (List.range' start n).foldl
      (fun best d => if credit.getD d 0 > best.1 then (credit.getD d 0, d) else best) best
    FirstBest (scanScore credit) (start + n) r.1 r.2 := by
  induction n generalizing start best with
  | zero => exact h
  | succ n ih =>
    have hscore : scanScore credit start = credit.getD start 0 := if_neg (by omega)
    rw [List.range'_succ, List.foldl_cons, show start + (n + 1) = start + 1 + n by omega]
    apply ih
    · omega
    · split_ifs with hbetter
      · have htake := h.take (hscore ▸ hbetter)
        rwa [hscore] at htake
      · exact h.skip (by omega)

/-- The scan finds the credited distance that outranks all others. -/
theorem mostCredit_firstBest (credit : List Nat) :
    FirstBest (scanScore credit) 4097 (mostCredit credit).1 (mostCredit credit).2 := by
  have hzero : FirstBest (scanScore credit) 1 0 0 :=
    (FirstBest.start (scanScore credit) 0).skip (le_of_eq (if_pos rfl))
  exact scan_firstBest credit 4096 1 (0, 0) (le_refl 1) hzero

theorem mostCredit_spec {credit : List Nat} (h : (mostCredit credit).1 ≠ 0) :
    1 ≤ (mostCredit credit).2 ∧ (mostCredit credit).2 ≤ 4096 ∧
      credit.getD (mostCredit credit).2 0 ≠ 0 ∧
      ∀ d, 1 ≤ d → d ≤ 4096 → d ≠ (mostCredit credit).2 → Outranks credit (mostCredit credit).2 d := by
  have hfirst := mostCredit_firstBest credit
  have hlt := hfirst.lt h
  have hreached := hfirst.reached h
  have hpos : (mostCredit credit).2 ≠ 0 := by
    intro hzero
    rw [hzero, scanScore, if_pos rfl] at hreached
    exact h hreached.symm
  rw [scanScore, if_neg hpos] at hreached
  refine ⟨by omega, by omega, by omega, ?_⟩
  intro d hd hmax hne
  have hle := hfirst.le d (by omega)
  have hbefore := hfirst.first h d
  rw [scanScore, if_neg (by omega)] at hle hbefore
  unfold Outranks
  rcases Nat.lt_or_ge d (mostCredit credit).2 with hlt | hge
  · have := hbefore hlt
    omega
  · omega

/-- When nothing is left, no distance has credit. -/
theorem mostCredit_eq_zero {credit : List Nat} (h : (mostCredit credit).1 = 0) {d : Nat}
    (hd : 1 ≤ d) (hmax : d ≤ 4096) : credit.getD d 0 = 0 := by
  have hle := (mostCredit_firstBest credit).le d (by omega)
  rw [scanScore, if_neg (by omega), h] at hle
  omega

/-- What the selection adds to the table: credited distances in the order of
their rank, and only when the room is used up does a credited distance stay
out, one that all of them outrank. -/
structure Ranked (credit : List Nat) (room : Nat) (chosen : List UInt16) : Prop where
  length_le : chosen.length ≤ room
  range : ∀ t ∈ chosen, 1 ≤ t.toNat ∧ t.toNat ≤ 4096
  credited : ∀ t ∈ chosen, credit.getD t.toNat 0 ≠ 0
  sorted : chosen.Pairwise fun a b => Outranks credit a.toNat b.toNat
  best (d : Nat) : 1 ≤ d → d ≤ 4096 → credit.getD d 0 ≠ 0 →
    (∃ t ∈ chosen, t.toNat = d) ∨
      chosen.length = room ∧ ∀ t ∈ chosen, Outranks credit t.toNat d

theorem Ranked.full (credit : List Nat) : Ranked credit 0 [] :=
  ⟨le_refl 0, by simp, by simp, List.Pairwise.nil, fun d _ _ _ => .inr ⟨rfl, by simp⟩⟩

theorem Ranked.none_left {credit : List Nat} (room : Nat) (h : (mostCredit credit).1 = 0) :
    Ranked credit room [] := by
  refine ⟨Nat.zero_le _, by simp, by simp, List.Pairwise.nil, ?_⟩
  intro d hd hmax hne
  exact absurd (mostCredit_eq_zero h hd hmax) hne

/-- The best distance in front of what is chosen without its credit.  Taking
the credit of one distance leaves the order of the others as it was. -/
theorem Ranked.cons {credit : List Nat} {room : Nat} {chosen : List UInt16} {d0 : UInt16}
    (h : Ranked (credit.set d0.toNat 0) room chosen) (hpos : 1 ≤ d0.toNat) (hmax : d0.toNat ≤ 4096)
    (hcredit : credit.getD d0.toNat 0 ≠ 0)
    (hout : ∀ d, 1 ≤ d → d ≤ 4096 → d ≠ d0.toNat → Outranks credit d0.toNat d) :
    Ranked credit (room + 1) (d0 :: chosen) := by
  have hlen : d0.toNat < credit.length := by
    by_contra hge
    rw [List.getD_eq_default _ _ (by omega)] at hcredit
    exact hcredit rfl
  have hget (d : Nat) (hne : d ≠ d0.toNat) : (credit.set d0.toNat 0).getD d 0 = credit.getD d 0 := by
    rw [getD_set _ _ _ _ hlen, if_neg (Ne.symm hne)]
  have hchosen (t : UInt16) (ht : t ∈ chosen) : t.toNat ≠ d0.toNat := by
    intro heq
    have hleft := h.credited t ht
    rw [heq, getD_set _ _ _ _ hlen, if_pos rfl] at hleft
    exact hleft rfl
  have houtranks (a b : Nat) (ha : a ≠ d0.toNat) (hb : b ≠ d0.toNat) :
      Outranks (credit.set d0.toNat 0) a b ↔ Outranks credit a b := by
    rw [Outranks, Outranks, hget a ha, hget b hb]
  refine ⟨?_, ?_, ?_, ?_, ?_⟩
  · rw [List.length_cons]
    exact Nat.succ_le_succ h.length_le
  · intro t ht
    rcases List.mem_cons.mp ht with rfl | ht
    · exact ⟨hpos, hmax⟩
    · exact h.range t ht
  · intro t ht
    rcases List.mem_cons.mp ht with rfl | ht
    · exact hcredit
    · rw [← hget _ (hchosen t ht)]
      exact h.credited t ht
  · rw [List.pairwise_cons]
    refine ⟨?_, ?_⟩
    · intro t ht
      exact hout _ (h.range t ht).1 (h.range t ht).2 (hchosen t ht)
    · refine h.sorted.imp_of_mem ?_
      intro a b ha hb hab
      exact (houtranks _ _ (hchosen a ha) (hchosen b hb)).mp hab
  · intro d hd hdmax hne
    by_cases heq : d = d0.toNat
    · exact .inl ⟨d0, List.mem_cons_self, heq.symm⟩
    · rcases h.best d hd hdmax (by rwa [hget d heq]) with ⟨t, ht, htd⟩ | ⟨hfull, hall⟩
      · exact .inl ⟨t, List.mem_cons_of_mem _ ht, htd⟩
      · refine .inr ⟨by rw [List.length_cons, hfull], ?_⟩
        intro t ht
        rcases List.mem_cons.mp ht with rfl | ht
        · exact hout d hd hdmax heq
        · exact (houtranks _ _ (hchosen t ht) heq).mp (hall t ht)

/-- The loop destroys the credit of what it takes. -/
theorem takeCredited_spec (room : Nat) (credit : List Nat) (table : List UInt16) :
    ∃ chosen, takeCredited room credit table = table ++ chosen ∧ Ranked credit room chosen := by
  induction room generalizing credit table with
  | zero => exact ⟨[], by simp [takeCredited], Ranked.full credit⟩
  | succ room ih =>
    rw [takeCredited]
    split_ifs with hzero
    · exact ⟨[], by simp, Ranked.none_left _ hzero⟩
    · obtain ⟨hpos, hmax, hcredit, hout⟩ := mostCredit_spec hzero
      generalize (mostCredit credit).2 = d0 at hpos hmax hcredit hout ⊢
      have hd0 : d0.toUInt16.toNat = d0 := by
        rw [Nat.toUInt16, UInt16.toNat_ofNat']
        omega
      obtain ⟨chosen, htake, hranked⟩ := ih (credit.set d0 0) (table ++ [d0.toUInt16])
      refine ⟨d0.toUInt16 :: chosen, ?_, ?_⟩
      · rw [htake, List.append_assoc]
        rfl
      · apply Ranked.cons <;> rwa [hd0]

/-! ## The fill -/

/-- A fill from distinct defaults appends those that are not there yet, as far
as there is room. -/
theorem foldl_fill (defaults table : List UInt16) (hnodup : defaults.Nodup) :
    defaults.foldl
        (fun table t => if table.length < 64 ∧ t ∉ table then table ++ [t] else table) table =
      table ++ (defaults.filter (· ∉ table)).take (64 - table.length) := by
  induction defaults generalizing table with
  | nil => simp
  | cons t defaults ih =>
    obtain ⟨hnew, hrest⟩ := List.nodup_cons.mp hnodup
    rw [List.foldl_cons]
    by_cases hmem : t ∈ table
    · rw [if_neg (by simp [hmem]), ih table hrest, List.filter_cons_of_neg (by simpa using hmem)]
    by_cases hroom : table.length < 64
    · have hfilter : defaults.filter (· ∉ table ++ [t]) = defaults.filter (· ∉ table) := by
        apply List.filter_congr
        intro u hu
        have hne : u ≠ t := fun heq => hnew (heq ▸ hu)
        simp [hne]
      have hone : 64 - table.length = 64 - (table ++ [t]).length + 1 := by
        rw [List.length_append, List.length_singleton]
        omega
      rw [if_pos ⟨hroom, hmem⟩, ih _ hrest, hfilter, List.filter_cons_of_pos (by simpa using hmem),
        hone, List.take_succ_cons, List.append_assoc]
      rfl
    · rw [if_neg (by simp [hroom]), ih table hrest, Nat.sub_eq_zero_of_le (not_lt.mp hroom),
        List.take_zero, List.take_zero]

theorem fillDefault_eq (table : List UInt16) :
    fillDefault table =
      table ++ (codec11DefaultTable.filter (· ∉ table)).take (64 - table.length) :=
  foldl_fill codec11DefaultTable table (by decide)

/-! ## The table -/

/-- Empty buckets, and no credit for any distance. -/
def noSlots : Slots := List.replicate 2048 [0, 0, 0, 0]

/-- The credit the pre-parse of a band gives each distance. -/
def bandCredit (band : Bytes) : List Nat := chooseCredit band 0 (List.replicate 4097 0) noSlots

/-- The pre-parse of a band. -/
def bandMatches (band : Bytes) : List PreMatch := preParse band 0 noSlots

theorem chooseEntries_eq (band : Bytes) :
    chooseEntries band = fillDefault (takeCredited 64 (bandCredit band) []) := by
  unfold chooseEntries bandCredit noSlots
  rfl

theorem noSlots_below : Below noSlots 0 := by
  intro row hrow s hs
  rw [noSlots, List.mem_replicate] at hrow
  rw [hrow.2] at hs
  simp at hs
  exact hs.le

/-- The credit of a band: as much as its matches are long, and not more than
the band altogether. -/
theorem bandCredit_spec {band : Bytes} (hlen : band.length < 2 ^ 32 - 1) :
    (∀ d, (bandCredit band).getD d 0 = matchedAt (bandMatches band) d) ∧
      (bandCredit band).sum ≤ band.length ∧ ∀ m ∈ bandMatches band, m.Real band := by
  have hnone : (List.replicate 4097 0).sum = 0 := by rw [List.sum_replicate_nat, Nat.mul_zero]
  have hlength : (List.replicate 4097 0).length = 4097 := List.length_replicate
  obtain ⟨-, hget, hsum⟩ := chooseCredit_eq noSlots_below (Nat.zero_le band.length) hlength
    (by rw [hnone]; omega)
  obtain ⟨hreal, htotal⟩ := preParse_spec noSlots_below (Nat.zero_le band.length)
  refine ⟨?_, ?_, hreal⟩
  · intro d
    have hzero : (List.replicate 4097 0).getD d 0 = 0 := by
      rw [List.getD_eq_getElem?_getD, List.getElem?_replicate]
      split_ifs <;> rfl
    rw [bandCredit, hget, hzero, Nat.zero_add]
    rfl
  · rw [bandCredit, hsum, hnone]
    omega

/-- Some three consecutive bytes of the band repeat at distance `d`. -/
def Repeats (band : Bytes) (d : Nat) : Prop :=
  ∃ pos, d ≤ pos ∧ pos + 3 ≤ band.length ∧
    ∀ k < 3, byteAt band (pos + k) = byteAt band (pos - d + k)

/-- A distance with credit has a match. -/
theorem repeats_of_matchedAt {band : Bytes} {ms : List PreMatch} {d : Nat}
    (hreal : ∀ m ∈ ms, m.Real band) (h : matchedAt ms d ≠ 0) : Repeats band d := by
  induction ms with
  | nil => exact absurd rfl h
  | cons m ms ih =>
    rw [matchedAt_cons] at h
    split_ifs at h with hd
    · have hm := hreal m List.mem_cons_self
      have hthree := hm.three_le
      have hinside := hm.inside
      subst hd
      exact ⟨m.pos, hm.dist_le, by omega, fun k hk => hm.same k (by omega)⟩
    · apply ih
      · intro m' hm'
        exact hreal m' (List.mem_cons_of_mem m hm')
      · omega

/-- The chosen table is valid and honest.  It has 64 distinct distances from
1 to 4096.  First come the credited distances by rank, all of them or the 64
best, and at each of them three bytes of the band repeat; the rest are the
defaults that are not there yet, in order.  The credit of a distance is the
length of the pre-parse's matches at it, and all credit together is at most
the length of the band. -/
theorem codec11ChooseTable_spec (band : Bytes) (hlen : band.length < 2 ^ 32 - 1) :
    (codec11ChooseTable band).entries.length = 64 ∧
    (codec11ChooseTable band).entries.Nodup ∧
    (∀ t ∈ (codec11ChooseTable band).entries, 1 ≤ t.toNat ∧ t.toNat ≤ 4096) ∧
    (∀ d, (bandCredit band).getD d 0 = matchedAt (bandMatches band) d) ∧
    (bandCredit band).sum ≤ band.length ∧
    ∃ chosen : List UInt16, Ranked (bandCredit band) 64 chosen ∧
      (∀ t ∈ chosen, Repeats band t.toNat) ∧
      (codec11ChooseTable band).entries =
        chosen ++ (codec11DefaultTable.filter (· ∉ chosen)).take (64 - chosen.length) := by
  obtain ⟨hcredit, hsum, hreal⟩ := bandCredit_spec hlen
  obtain ⟨chosen, htake, hranked⟩ := takeCredited_spec 64 (bandCredit band) []
  rw [List.nil_append] at htake
  have hentries : (codec11ChooseTable band).entries =
      chosen ++ (codec11DefaultTable.filter (· ∉ chosen)).take (64 - chosen.length) := by
    rw [← fillDefault_eq, ← htake, ← chooseEntries_eq, codec11ChooseTable]
  refine ⟨(codec11ChooseTable band).length_eq, ?_, ?_, hcredit, hsum, chosen, hranked, ?_, hentries⟩
  · rw [hentries, List.nodup_append]
    refine ⟨?_, ?_, ?_⟩
    · refine hranked.sorted.imp ?_
      rintro a b h rfl
      unfold Outranks at h
      omega
    · exact (List.Nodup.filter _ (by decide)).sublist (List.take_sublist _ _)
    · rintro t ht _ hfill rfl
      have hnew := (List.mem_filter.mp (List.mem_of_mem_take hfill)).2
      simp [ht] at hnew
  · intro t ht
    rw [hentries] at ht
    rcases List.mem_append.mp ht with ht | ht
    · exact hranked.range t ht
    · have hall : codec11DefaultTable.all (fun t => 1 ≤ t.toNat && t.toNat ≤ 4096) = true := by
        decide
      have hdefault := List.all_eq_true.mp hall t
        (List.mem_filter.mp (List.mem_of_mem_take ht)).1
      simpa using hdefault
  · intro t ht
    apply repeats_of_matchedAt hreal
    rw [← hcredit]
    exact hranked.credited t ht

/-- A band of four bytes. -/
theorem codec11ChooseTable_spec_four :
    let band : Bytes := [7, 7, 7, 7]
    (codec11ChooseTable band).entries.length = 64 ∧
    (codec11ChooseTable band).entries.Nodup ∧
    (∀ t ∈ (codec11ChooseTable band).entries, 1 ≤ t.toNat ∧ t.toNat ≤ 4096) ∧
    (∀ d, (bandCredit band).getD d 0 = matchedAt (bandMatches band) d) ∧
    (bandCredit band).sum ≤ band.length ∧
    ∃ chosen : List UInt16, Ranked (bandCredit band) 64 chosen ∧
      (∀ t ∈ chosen, Repeats band t.toNat) ∧
      (codec11ChooseTable band).entries =
        chosen ++ (codec11DefaultTable.filter (· ∉ chosen)).take (64 - chosen.length) :=
  codec11ChooseTable_spec [7, 7, 7, 7] (by decide)

end Airbridge.Qpdl
