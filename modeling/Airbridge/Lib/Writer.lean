import Mathlib.Tactic.SplitIfs
import Mathlib.Data.List.Basic

/-!
# Writing into a buffer of limited capacity

An append-only writer either has room for everything it is given, or stops
with what it wrote so far.  `Writes cap out data r f` says that `r` is the
result of writing `data` behind `out`: success with the value `f` of the whole
output when everything fits, and otherwise a prefix of that output within the
capacity.  Such steps compose (`Writes.bind`), so a chain of writes behaves
like one write of all its data.
-/

namespace Writer

universe u v

variable {α : Type u} {β γ : Type v}

/-- The result of writing `data` behind `out`. -/
inductive Writes (cap : Nat) (out data : List α) (f : List α → β) : Except (List α) β → Prop where
  | ok (fits : out.length + data.length ≤ cap) : Writes cap out data f (.ok (f (out ++ data)))
  | full {written : List α} (exceeds : cap < out.length + data.length)
      (written_pre : written <+: out ++ data) (written_le : written.length ≤ cap) :
      Writes cap out data f (.error written)

/-- Writing nothing. -/
theorem Writes.nil {cap : Nat} {out : List α} (f : List α → β) (hout : out.length ≤ cap) :
    Writes cap out [] f (.ok (f out)) := by
  have h : Writes cap out [] f (.ok (f (out ++ []))) := .ok (by simpa using hout)
  simpa using h

/-- One write with its capacity check in front. -/
theorem Writes.of_check {cap : Nat} {out data : List α} (hout : out.length ≤ cap) :
    Writes cap out data id
      (if cap - out.length < data.length then .error out else .ok (out ++ data)) := by
  split_ifs with h
  · exact .full (by omega) (List.prefix_append _ _) hout
  · exact .ok (by omega)

/-- A write and what is written after it. -/
theorem Writes.bind {cap : Nat} {out a b : List α} {f : List α → β} {g : List α → γ}
    {r : Except (List α) β} {k : β → Except (List α) γ} (h : Writes cap out a f r)
    (hk : (out ++ a).length ≤ cap → Writes cap (out ++ a) b g (k (f (out ++ a)))) :
    Writes cap out (a ++ b) g (r >>= k) := by
  cases h with
  | ok fits =>
    have h2 := hk (by rw [List.length_append]; omega)
    have hlen : (out ++ a).length = out.length + a.length := List.length_append
    change Writes cap out (a ++ b) g (k (f (out ++ a)))
    generalize k (f (out ++ a)) = r2 at h2
    cases h2 with
    | ok fits2 =>
      rw [List.append_assoc]
      exact .ok (by rw [List.length_append]; omega)
    | full exceeds hp hle =>
      exact .full (by rw [List.length_append]; omega) (by rwa [← List.append_assoc]) hle
  | full exceeds hp hle =>
    refine .full (by rw [List.length_append]; omega) (hp.trans ?_) hle
    rw [← List.append_assoc]
    exact List.prefix_append _ _

/-- With room for everything, everything is written. -/
theorem Writes.eq_ok {cap : Nat} {out data : List α} {f : List α → β} {r : Except (List α) β}
    (h : Writes cap out data f r) (hfits : out.length + data.length ≤ cap) :
    r = .ok (f (out ++ data)) := by
  cases h with
  | ok _ => rfl
  | full exceeds _ _ => omega

end Writer
