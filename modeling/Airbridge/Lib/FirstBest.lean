import Mathlib.Order.Nat

/-!
# The first best candidate of a scan

A scan over candidates `0, 1, 2, …` keeps the best score so far and the
candidate it belongs to, and replaces them only by something strictly better.
`FirstBest score n best index` is what it knows behind the first `n`
candidates.  A candidate that is no better may be skipped, for whatever
reason, without looking at its score (`FirstBest.skip`), and a scan may stop
as soon as nothing behind it can be better (`FirstBest.stop`).  A best score
of 0 means that no candidate scored, and then the index says nothing.
-/

/-- `best` is the largest score among the first `n` candidates, and unless it
is 0, `index` is the first candidate that reaches it. -/
structure FirstBest (score : Nat → Nat) (n best index : Nat) : Prop where
  le : ∀ j < n, score j ≤ best
  lt : best ≠ 0 → index < n
  reached : best ≠ 0 → score index = best
  first : best ≠ 0 → ∀ j < index, score j < best

namespace FirstBest

variable {score : Nat → Nat} {n best index : Nat}

theorem start (score : Nat → Nat) (index : Nat) : FirstBest score 0 0 index where
  le _ hj := absurd hj (Nat.not_lt_zero _)
  lt h := absurd rfl h
  reached h := absurd rfl h
  first h := absurd rfl h

/-- A candidate that is no better changes nothing. -/
theorem skip (h : FirstBest score n best index) (hle : score n ≤ best) :
    FirstBest score (n + 1) best index where
  le j hj := by
    rcases Nat.lt_succ_iff_lt_or_eq.mp hj with hj | rfl
    · exact h.le j hj
    · exact hle
  lt hne := Nat.lt_succ_of_lt (h.lt hne)
  reached := h.reached
  first := h.first

/-- A better candidate takes the lead. -/
theorem take (h : FirstBest score n best index) (hlt : best < score n) :
    FirstBest score (n + 1) (score n) n where
  le j hj := by
    rcases Nat.lt_succ_iff_lt_or_eq.mp hj with hj | rfl
    · exact (h.le j hj).trans hlt.le
    · exact le_refl _
  lt _ := Nat.lt_succ_self n
  reached _ := rfl
  first _ j hj := (h.le j hj).trans_lt hlt

/-- A scan may stop when nothing can be better. -/
theorem stop {m : Nat} (h : FirstBest score n best index) (hnm : n ≤ m)
    (hle : ∀ j < m, score j ≤ best) : FirstBest score m best index where
  le := hle
  lt hne := (h.lt hne).trans_le hnm
  reached := h.reached
  first := h.first

end FirstBest
