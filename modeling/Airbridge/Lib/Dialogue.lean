import Mathlib.Data.List.Basic
import Mathlib.Data.Nat.Find
import Mathlib.Logic.Function.Basic

/-!
# Dialogues

A program makes requests, one after the other, and acts on the answers.
`run a` is the list of the requests it makes when request `n` gets the answer
`a n`.

* `Causal`: a request depends on the answers before it only.
* `Causal.first_refusal`: until the first answer that is not the expected one,
  a program makes the requests it makes when it is never disappointed.
* `Causal.exists_answered`: an environment that answers each request in view of
  the requests so far meets the program in a run.
-/

namespace Dialogue

variable {δ ρ : Type*} {run : (Nat → ρ) → List δ}

/-- Each request is determined by the answers before it. -/
def Causal (run : (Nat → ρ) → List δ) : Prop :=
  ∀ (a b : Nat → ρ) (n : Nat), (∀ i < n, a i = b i) → (run a).take (n + 1) = (run b).take (n + 1)

/-- The environment answers each request in view of the requests up to it. -/
def AnsweredBy (env : List δ → ρ) (run : (Nat → ρ) → List δ) (a : Nat → ρ) : Prop :=
  ∀ n < (run a).length, a n = env ((run a).take (n + 1))

/-- Two runs whose answers agree on all requests of one of them are the same. -/
theorem Causal.eq_of_agree (h : Causal run) {a b : Nat → ρ}
    (hab : ∀ i < (run a).length, a i = b i) : run a = run b := by
  have htake := h a b (run a).length hab
  rw [List.take_of_length_le (Nat.le_succ _)] at htake
  have hlen : (run b).length ≤ (run a).length := by
    have := congrArg List.length htake
    rw [List.length_take] at this
    omega
  rw [htake, List.take_of_length_le (by omega)]

/-- Either every answer is the expected one, or the run is the expected one up
to and including the request with the first other answer. -/
theorem Causal.first_refusal (h : Causal run) (a : Nat → ρ) (c : ρ) :
    ((∀ n < (run a).length, a n = c) ∧ run a = run fun _ => c) ∨
      ∃ k < (run a).length, (∀ i < k, a i = c) ∧ a k ≠ c ∧
        (run a).take (k + 1) = (run fun _ => c).take (k + 1) := by
  by_cases hall : ∀ n < (run a).length, a n = c
  · exact .inl ⟨hall, h.eq_of_agree hall⟩
  · push Not at hall
    classical
    obtain ⟨hlt, hne⟩ := Nat.find_spec hall
    have hbefore : ∀ i < Nat.find hall, a i = c := by
      intro i hi
      by_contra hia
      exact Nat.find_min hall hi ⟨by omega, hia⟩
    exact .inr ⟨Nat.find hall, hlt, hbefore, hne, h a (fun _ => c) _ hbefore⟩

/-! ## Meeting an environment -/

/-- The answers of the environment to the first `n` requests; `c` behind
them. -/
def answersUpTo (env : List δ → ρ) (run : (Nat → ρ) → List δ) (c : ρ) : Nat → Nat → ρ
  | 0 => fun _ => c
  | n + 1 =>
    let a := answersUpTo env run c n
    Function.update a n (env ((run a).take (n + 1)))

theorem answersUpTo_stable (env : List δ → ρ) (c : ρ) {i n : Nat} (hi : i < n) :
    answersUpTo env run c n i = answersUpTo env run c (i + 1) i := by
  induction n with
  | zero => exact absurd hi (Nat.not_lt_zero i)
  | succ n ih =>
    rcases Nat.lt_succ_iff_lt_or_eq.mp hi with hlt | rfl
    · rw [← ih hlt, answersUpTo]
      exact Function.update_of_ne (Nat.ne_of_lt hlt) _ _
    · rfl

/-- Every environment meets a causal program. -/
theorem Causal.exists_answered [Nonempty ρ] (h : Causal run) (env : List δ → ρ) :
    ∃ a, AnsweredBy env run a := by
  obtain ⟨c⟩ := ‹Nonempty ρ›
  refine ⟨fun n => answersUpTo env run c (n + 1) n, fun n _ => ?_⟩
  have hagree : (run (answersUpTo env run c n)).take (n + 1) =
      (run fun n => answersUpTo env run c (n + 1) n).take (n + 1) :=
    h _ _ n fun i hi => answersUpTo_stable env c hi
  rw [← hagree]
  exact Function.update_self n _ _

end Dialogue
