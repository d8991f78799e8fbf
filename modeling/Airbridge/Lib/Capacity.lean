import Mathlib.Data.List.Infix
import Mathlib.Tactic.SplitIfs

/-!
# Answers that depend on a capacity

A program that fills a buffer of limited capacity can be run once for every
capacity.  `Limited out full answer` says what makes the capacity harmless:
the output fits, an answer that did not run out of room is given at every
capacity its output fits in, and an answer that did is the beginning of what
any larger buffer receives.  The exact threshold follows: an answer with `n`
bytes of output is given at the capacities from `n` on, and below `n` the
program runs out of room.
-/

variable {α : Type*} {ρ : Type*}

/-- `answer c` is the answer at capacity `c`, `out` its output, and `full` says
that it ran out of room. -/
structure Limited (out : ρ → List α) (full : ρ → Prop) (answer : Nat → ρ) : Prop where
  fits (c : Nat) : (out (answer c)).length ≤ c
  same (c c' : Nat) : ¬full (answer c) → (out (answer c)).length ≤ c' → answer c' = answer c
  starts (c c' : Nat) : c ≤ c' → full (answer c) → out (answer c) <+: out (answer c')

namespace Limited

variable {out : ρ → List α} {full : ρ → Prop} {answer : Nat → ρ}

/-- A larger capacity changes no answer that had enough room. -/
theorem mono (h : Limited out full answer) {c c' : Nat} (hle : c ≤ c') (hroom : ¬full (answer c)) :
    answer c' = answer c :=
  h.same c c' hroom ((h.fits c).trans hle)

/-- Below the length of its output an answer cannot be given. -/
theorem full_of_lt (h : Limited out full answer) {c c' : Nat}
    (hlt : c' < (out (answer c)).length) : full (answer c') := by
  by_contra hroom'
  have hle : c' ≤ c := hlt.le.trans (h.fits c)
  have heq : answer c = answer c' := h.mono hle hroom'
  have hfits := h.fits c'
  rw [heq] at hlt
  omega

/-- An answer that needs no room. -/
theorem const {r : ρ} (hout : out r = []) (hroom : ¬full r) : Limited out full fun _ => r where
  fits c := by simp [hout]
  same _ _ _ _ := rfl
  starts _ _ _ h := absurd h hroom

/-- A program that first asks for `n` bytes of room, and fills them. -/
theorem gate {n : Nat} {stop : ρ} (hnil : out stop = []) (hstop : full stop)
    (hfits : ∀ c, n ≤ c → (out (answer c)).length ≤ c)
    (hlong : ∀ c, n ≤ (out (answer c)).length)
    (hsame : ∀ c c', ¬full (answer c) → (out (answer c)).length ≤ c' → answer c' = answer c)
    (hstarts : ∀ c c', c ≤ c' → full (answer c) → out (answer c) <+: out (answer c')) :
    Limited out full fun c => if n > c then stop else answer c where
  fits c := by
    split_ifs with h
    · simp [hnil]
    · exact hfits c (not_lt.mp h)
  same c c' hroom hle := by
    by_cases h : n > c
    · rw [if_pos h] at hroom
      exact absurd hstop hroom
    · rw [if_neg h] at hroom hle ⊢
      have hlong' := hlong c
      rw [if_neg (by omega)]
      exact hsame c c' hroom hle
  starts c c' hle hfull := by
    by_cases h : n > c
    · rw [if_pos h, hnil]
      exact List.nil_prefix
    · rw [if_neg h] at hfull ⊢
      rw [if_neg (by omega)]
      exact hstarts c c' hle hfull

end Limited
