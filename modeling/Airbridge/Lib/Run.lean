import Mathlib.Data.List.Basic

/-!
# Runs of a step function

A run feeds a list of inputs to a step function, one after the other.
`Every step ok s as` says that each step of the run from `s` meets the
condition `ok` on the state before it and its input.  Two rules reduce a
statement about runs to one about a step: an invariant that every step keeps
under the condition holds behind the run (`Every.invariant`), two conditions
that agree under such an invariant pick out the same runs (`every_iff_of_mem`),
and a property that each step keeps exactly under the condition holds behind
exactly the runs that meet it (`holds_iff`).
-/

namespace Run

variable {σ α : Type*} {step : σ → α → σ}

/-- The state behind a run. -/
def run (step : σ → α → σ) (s : σ) (as : List α) : σ := as.foldl step s

/-- Every step of the run meets the condition. -/
def Every (step : σ → α → σ) (ok : σ → α → Prop) : σ → List α → Prop
  | _, [] => True
  | s, a :: as => ok s a ∧ Every step ok (step s a) as

@[simp] theorem run_nil (s : σ) : run step s [] = s := rfl

@[simp] theorem run_cons (s : σ) (a : α) (as : List α) :
    run step s (a :: as) = run step (step s a) as := rfl

theorem run_append (s : σ) (as bs : List α) :
    run step s (as ++ bs) = run step (run step s as) bs :=
  List.foldl_append

theorem every_append {ok : σ → α → Prop} (s : σ) (as bs : List α) :
    Every step ok s (as ++ bs) ↔ Every step ok s as ∧ Every step ok (run step s as) bs := by
  induction as generalizing s with
  | nil => simp [Every]
  | cons a as ih => simp [Every, ih, and_assoc]

/-- An invariant that every step keeps. -/
theorem run_invariant {Inv : σ → Prop} (hstep : ∀ s a, Inv s → Inv (step s a)) {s : σ}
    (hs : Inv s) (as : List α) : Inv (run step s as) := by
  induction as generalizing s with
  | nil => exact hs
  | cons a as ih => exact ih (hstep s a hs)

/-- An invariant that every step keeps under the condition. -/
theorem Every.invariant {ok : σ → α → Prop} {Inv : σ → Prop}
    (hstep : ∀ s a, Inv s → ok s a → Inv (step s a)) {s : σ} {as : List α}
    (h : Every step ok s as) (hs : Inv s) : Inv (run step s as) := by
  induction as generalizing s with
  | nil => exact hs
  | cons a as ih => exact ih h.2 (hstep s a hs h.1)

/-- Under an invariant that both conditions keep, two conditions that agree on
the inputs of a run agree on the run. -/
theorem every_iff_of_mem {p q : σ → α → Prop} {Inv : σ → Prop} {as : List α}
    (hiff : ∀ s, ∀ a ∈ as, Inv s → (p s a ↔ q s a))
    (hstep : ∀ s, ∀ a ∈ as, Inv s → q s a → Inv (step s a)) {s : σ} (hs : Inv s) :
    Every step p s as ↔ Every step q s as := by
  induction as generalizing s with
  | nil => exact Iff.rfl
  | cons a as ih =>
    have ha : a ∈ a :: as := List.mem_cons_self
    have htail : ∀ b ∈ as, b ∈ a :: as := fun b hb => List.mem_cons_of_mem a hb
    rw [Every, Every, hiff s a ha hs]
    apply and_congr_right
    intro hq
    apply ih
    · intro s b hb
      exact hiff s b (htail b hb)
    · intro s b hb
      exact hstep s b (htail b hb)
    · exact hstep s a ha hs hq

/-- A property that a step keeps if and only if it meets the condition. -/
theorem holds_iff {P Inv : σ → Prop} {ok : σ → α → Prop} (hinv : ∀ s a, Inv s → Inv (step s a))
    (hstep : ∀ s a, Inv s → (P (step s a) ↔ P s ∧ ok s a)) {s : σ} (hs : Inv s) (as : List α) :
    P (run step s as) ↔ P s ∧ Every step ok s as := by
  induction as generalizing s with
  | nil => simp [Every]
  | cons a as ih => rw [run_cons, ih (hinv s a hs), hstep s a hs, Every, and_assoc]

end Run
