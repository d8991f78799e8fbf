import Mathlib.Data.List.Basic
import Mathlib.Tactic.SplitIfs

/-!
# Plans

A plan is a list of steps that run one after the other until one fails.  Each
step has a result, zero for success, and a step may be marked so that its
failure does not end the run.  `run` returns zero or one more than the index of
the step that ended it, and the steps that were carried out.

`mem_run` says which steps those are, `ret_eq_zero` and `ret_eq_succ` what is
returned, and `guarded` is the rule for the order of a plan: what stands behind
a step that must succeed is carried out only after that step has.
-/

namespace Plan

variable {σ : Type*}

/-- A step that was carried out, with its index and its result. -/
structure Done (σ : Type*) where
  index : Nat
  step : σ
  rc : Int

/-- What a run returns, and what it carried out. -/
structure Outcome (σ : Type*) where
  ret : Nat
  done : List (Done σ)

/-- The steps from index `i` on.  `rc i s` is the result of step `s` at index
`i`. -/
def runFrom (rc : Nat → σ → Int) (ignore : σ → Bool) : Nat → List σ → Outcome σ
  | _, [] => ⟨0, []⟩
  | i, s :: steps =>
    if rc i s ≠ 0 ∧ ignore s = false then ⟨i + 1, [⟨i, s, rc i s⟩]⟩
    else
      let rest := runFrom rc ignore (i + 1) steps
      ⟨rest.ret, ⟨i, s, rc i s⟩ :: rest.done⟩

def run (rc : Nat → σ → Int) (ignore : σ → Bool) (steps : List σ) : Outcome σ :=
  runFrom rc ignore 0 steps

/-- A step that does not end the run. -/
def Passes (rc : Nat → σ → Int) (ignore : σ → Bool) (i : Nat) (s : σ) : Prop :=
  rc i s = 0 ∨ ignore s = true

/-- The first `k` of the steps from index `i` on pass. -/
def PassesTo (rc : Nat → σ → Int) (ignore : σ → Bool) (i : Nat) (steps : List σ) (k : Nat) : Prop :=
  ∀ j < k, ∀ s, steps[j]? = some s → Passes rc ignore (i + j) s

theorem PassesTo.passes {rc : Nat → σ → Int} {ignore : σ → Bool} {steps : List σ} {k j : Nat}
    {s : σ} (h : PassesTo rc ignore 0 steps k) (hj : j < k) (hs : steps[j]? = some s) :
    Passes rc ignore j s := by
  have hpass := h j hj s hs
  rwa [Nat.zero_add] at hpass

theorem not_passes {rc : Nat → σ → Int} {ignore : σ → Bool} {i : Nat} {s : σ} :
    ¬Passes rc ignore i s ↔ rc i s ≠ 0 ∧ ignore s = false := by
  unfold Passes
  rw [not_or, Bool.not_eq_true]

theorem passesTo_succ {rc : Nat → σ → Int} {ignore : σ → Bool} {i : Nat} {s : σ} {steps : List σ}
    {k : Nat} : PassesTo rc ignore i (s :: steps) (k + 1) ↔
      Passes rc ignore i s ∧ PassesTo rc ignore (i + 1) steps k := by
  constructor
  · intro h
    refine ⟨h 0 (Nat.succ_pos k) s rfl, fun j hj t ht => ?_⟩
    have hpass := h (j + 1) (Nat.succ_lt_succ hj) t ht
    rwa [← Nat.add_assoc, Nat.add_right_comm] at hpass
  · rintro ⟨hs, hrest⟩ j hj t ht
    cases j with
    | zero =>
      obtain rfl : s = t := Option.some_inj.mp ht
      exact hs
    | succ j =>
      have hpass := hrest j (Nat.lt_of_succ_lt_succ hj) t ht
      rwa [← Nat.add_assoc, Nat.add_right_comm]

theorem passesTo_add_one {rc : Nat → σ → Int} {ignore : σ → Bool} {steps : List σ} {k : Nat}
    {s : σ} (hs : steps[k]? = some s) : PassesTo rc ignore 0 steps (k + 1) ↔
      PassesTo rc ignore 0 steps k ∧ Passes rc ignore k s := by
  constructor
  · intro h
    exact ⟨fun j hj => h j (Nat.lt_succ_of_lt hj), h.passes (Nat.lt_succ_self k) hs⟩
  · rintro ⟨hbefore, hpass⟩ j hj t ht
    rcases Nat.lt_succ_iff_lt_or_eq.mp hj with hlt | rfl
    · exact hbefore j hlt t ht
    · obtain rfl : s = t := Option.some_inj.mp (hs.symm.trans ht)
      rwa [Nat.zero_add]

/-- A step is carried out if and only if those in front of it pass. -/
theorem mem_runFrom {rc : Nat → σ → Int} {ignore : σ → Bool} {i : Nat} {steps : List σ}
    {d : Done σ} : d ∈ (runFrom rc ignore i steps).done ↔
      ∃ k, steps[k]? = some d.step ∧ d.index = i + k ∧ d.rc = rc d.index d.step ∧
        PassesTo rc ignore i steps k := by
  induction steps generalizing i with
  | nil => simp [runFrom]
  | cons s steps ih =>
    have hfirst (hd : d = ⟨i, s, rc i s⟩) : ∃ k, (s :: steps)[k]? = some d.step ∧
        d.index = i + k ∧ d.rc = rc d.index d.step ∧ PassesTo rc ignore i (s :: steps) k := by
      subst hd
      exact ⟨0, rfl, rfl, rfl, fun j hj => absurd hj (Nat.not_lt_zero j)⟩
    rw [runFrom]
    by_cases hs : rc i s ≠ 0 ∧ ignore s = false
    · rw [if_pos hs, List.mem_singleton]
      refine ⟨hfirst, ?_⟩
      rintro ⟨k, hk, hindex, hrc, hpass⟩
      cases k with
      | zero =>
        obtain rfl : s = d.step := Option.some_inj.mp hk
        obtain rfl : d.index = i := hindex
        cases d
        exact congrArg _ hrc
      | succ k => exact absurd (passesTo_succ.mp hpass).1 (not_passes.mpr hs)
    · rw [if_neg hs, List.mem_cons, ih]
      constructor
      · rintro (hd | ⟨k, hk, hindex, hrc, hpass⟩)
        · exact hfirst hd
        · refine ⟨k + 1, hk, by omega, hrc, passesTo_succ.mpr ⟨?_, hpass⟩⟩
          by_contra hfail
          exact hs (not_passes.mp hfail)
      · rintro ⟨k, hk, hindex, hrc, hpass⟩
        cases k with
        | zero =>
          left
          obtain rfl : s = d.step := Option.some_inj.mp hk
          obtain rfl : d.index = i := hindex
          cases d
          exact congrArg _ hrc
        | succ k => exact .inr ⟨k, hk, by omega, hrc, (passesTo_succ.mp hpass).2⟩

theorem mem_run {rc : Nat → σ → Int} {ignore : σ → Bool} {steps : List σ} {d : Done σ} :
    d ∈ (run rc ignore steps).done ↔
      steps[d.index]? = some d.step ∧ d.rc = rc d.index d.step ∧
        PassesTo rc ignore 0 steps d.index := by
  rw [run, mem_runFrom]
  constructor
  · rintro ⟨k, hk, hindex, hrc, hpass⟩
    rw [Nat.zero_add] at hindex
    rw [hindex]
    rw [hindex] at hrc
    exact ⟨hk, hrc, hpass⟩
  · rintro ⟨hk, hrc, hpass⟩
    exact ⟨d.index, hk, (Nat.zero_add _).symm, hrc, hpass⟩

theorem done_at {rc : Nat → σ → Int} {ignore : σ → Bool} {steps : List σ} {i : Nat} {s : σ}
    (hs : steps[i]? = some s) (hpass : PassesTo rc ignore 0 steps i) :
    ⟨i, s, rc i s⟩ ∈ (run rc ignore steps).done :=
  mem_run.mpr ⟨hs, rfl, hpass⟩

/-- In front of a step that was carried out every step was. -/
theorem done_before {rc : Nat → σ → Int} {ignore : σ → Bool} {steps : List σ} {d : Done σ}
    (hd : d ∈ (run rc ignore steps).done) {j : Nat} (hj : j < d.index) {s : σ}
    (hs : steps[j]? = some s) : ⟨j, s, rc j s⟩ ∈ (run rc ignore steps).done := by
  obtain ⟨-, -, hpass⟩ := mem_run.mp hd
  exact done_at hs fun i hi => hpass i (Nat.lt_trans hi hj)

/-- A run returns zero if every step passes, else one more than the index of
the first that does not. -/
theorem ret_runFrom (rc : Nat → σ → Int) (ignore : σ → Bool) (i : Nat) (steps : List σ) :
    ((runFrom rc ignore i steps).ret = 0 ∧ PassesTo rc ignore i steps steps.length) ∨
      ∃ k s, steps[k]? = some s ∧ (runFrom rc ignore i steps).ret = i + k + 1 ∧
        PassesTo rc ignore i steps k ∧ ¬Passes rc ignore (i + k) s := by
  induction steps generalizing i with
  | nil => exact .inl ⟨rfl, fun j hj => absurd hj (Nat.not_lt_zero j)⟩
  | cons s steps ih =>
    rw [runFrom]
    by_cases hs : rc i s ≠ 0 ∧ ignore s = false
    · rw [if_pos hs]
      exact .inr ⟨0, s, rfl, rfl, fun j hj => absurd hj (Nat.not_lt_zero j), not_passes.mpr hs⟩
    · rw [if_neg hs]
      have hpass : Passes rc ignore i s := by
        by_contra hfail
        exact hs (not_passes.mp hfail)
      rcases ih (i + 1) with ⟨hret, hall⟩ | ⟨k, t, hk, hret, hbefore, hfail⟩
      · exact .inl ⟨hret, passesTo_succ.mpr ⟨hpass, hall⟩⟩
      · refine .inr ⟨k + 1, t, hk, ?_, passesTo_succ.mpr ⟨hpass, hbefore⟩, ?_⟩
        · show (runFrom rc ignore (i + 1) steps).ret = _
          omega
        · rwa [← Nat.add_assoc, Nat.add_right_comm]

/-- The return value tells the first step that did not pass. -/
theorem ret_eq_succ {rc : Nat → σ → Int} {ignore : σ → Bool} {steps : List σ} {k : Nat} :
    (run rc ignore steps).ret = k + 1 ↔
      ∃ s, steps[k]? = some s ∧ PassesTo rc ignore 0 steps k ∧ ¬Passes rc ignore k s := by
  have hret := ret_runFrom rc ignore 0 steps
  simp only [Nat.zero_add] at hret
  rw [run]
  constructor
  · intro h
    rcases hret with ⟨hzero, -⟩ | ⟨k', s, hk, hret, hbefore, hfail⟩
    · omega
    · obtain rfl : k = k' := by omega
      exact ⟨s, hk, hbefore, hfail⟩
  · rintro ⟨s, hk, hbefore, hfail⟩
    have hlt : k < steps.length := (List.getElem?_eq_some_iff.mp hk).1
    rcases hret with ⟨-, hall⟩ | ⟨k', s', hk', hret, hbefore', hfail'⟩
    · exact absurd (hall.passes hlt hk) hfail
    · rcases Nat.lt_trichotomy k k' with hlt | heq | hgt
      · exact absurd (hbefore'.passes hlt hk) hfail
      · omega
      · exact absurd (hbefore.passes hgt hk') hfail'

theorem ret_eq_zero {rc : Nat → σ → Int} {ignore : σ → Bool} {steps : List σ} :
    (run rc ignore steps).ret = 0 ↔
      ∀ k s, steps[k]? = some s → Passes rc ignore k s := by
  have hret := ret_runFrom rc ignore 0 steps
  simp only [Nat.zero_add] at hret
  rw [run]
  constructor
  · intro h k s hk
    rcases hret with ⟨-, hall⟩ | ⟨k', s', -, hret, -, -⟩
    · exact hall.passes (List.getElem?_eq_some_iff.mp hk).1 hk
    · omega
  · intro h
    rcases hret with ⟨hzero, -⟩ | ⟨k', s', hk', -, -, hfail⟩
    · exact hzero
    · exact absurd (h k' s' hk') hfail

/-- The steps carried out are an initial segment of the plan. -/
theorem done_le_ret {rc : Nat → σ → Int} {ignore : σ → Bool} {steps : List σ} {d : Done σ}
    (hd : d ∈ (run rc ignore steps).done) (h : (run rc ignore steps).ret ≠ 0) :
    d.index < (run rc ignore steps).ret := by
  obtain ⟨k, hk⟩ := Nat.exists_eq_succ_of_ne_zero h
  obtain ⟨s, hs, -, hfail⟩ := ret_eq_succ.mp hk
  obtain ⟨-, -, hpass⟩ := mem_run.mp hd
  rw [hk]
  by_contra hlt
  exact hfail (hpass.passes (by omega) hs)

/-- The steps carried out are a front part of the plan. -/
theorem steps_prefix (rc : Nat → σ → Int) (ignore : σ → Bool) (steps : List σ) :
    (run rc ignore steps).done.map (·.step) <+: steps := by
  have hfrom (i : Nat) : (runFrom rc ignore i steps).done.map (·.step) <+: steps := by
    induction steps generalizing i with
    | nil => exact List.nil_prefix
    | cons s steps ih =>
      rw [runFrom]
      split_ifs
      · exact List.cons_prefix_cons.mpr ⟨rfl, List.nil_prefix⟩
      · exact List.cons_prefix_cons.mpr ⟨rfl, ih (i + 1)⟩
  exact hfrom 0

/-- What only stands behind a step was carried out after that step, and after
its success when its failure would have ended the run. -/
theorem guarded {rc : Nat → σ → Int} {ignore : σ → Bool} {front back : List σ} {g : σ}
    {P : σ → Prop} (hfront : ∀ s ∈ front, ¬P s) (hg : ¬P g) {d : Done σ}
    (hd : d ∈ (run rc ignore (front ++ g :: back)).done) (hP : P d.step) :
    ∃ e ∈ (run rc ignore (front ++ g :: back)).done, e.index = front.length ∧
      e.index < d.index ∧ e.step = g ∧ (ignore g = false → e.rc = 0) := by
  obtain ⟨hstep, -, hpass⟩ := mem_run.mp hd
  have hat : (front ++ g :: back)[front.length]? = some g := by
    rw [List.getElem?_append_right (Nat.le_refl _), Nat.sub_self]
    rfl
  have hbehind : front.length < d.index := by
    rcases Nat.lt_trichotomy d.index front.length with hlt | heq | hgt
    · rw [List.getElem?_append_left hlt] at hstep
      exact absurd hP (hfront _ (List.mem_of_getElem? hstep))
    · rw [heq, hat] at hstep
      rw [← Option.some_inj.mp hstep] at hP
      exact absurd hP hg
    · exact hgt
  refine ⟨⟨front.length, g, rc front.length g⟩, mem_run.mpr ⟨hat, rfl, ?_⟩, rfl, hbehind, rfl, ?_⟩
  · intro j hj s hs
    exact hpass j (Nat.lt_trans hj hbehind) s hs
  · intro hfatal
    rcases hpass.passes hbehind hat with hzero | hignore
    · exact hzero
    · exact absurd (hfatal.symm.trans hignore) Bool.false_ne_true

/-! ## Places in a plan -/

/-- A step that does not stand in the front of a plan stands behind it. -/
theorem getElem?_behind {front back : List σ} {i : Nat} {s : σ}
    (h : (front ++ back)[i]? = some s) (hs : s ∉ front) :
    ∃ j, i = front.length + j ∧ back[j]? = some s := by
  have hle : front.length ≤ i := by
    by_contra hlt
    rw [List.getElem?_append_left (by omega)] at h
    exact hs (List.mem_of_getElem? h)
  rw [List.getElem?_append_right hle] at h
  exact ⟨i - front.length, by omega, h⟩

end Plan
