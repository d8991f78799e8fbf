import Airbridge.Lib.Plan
import Airbridge.Service.Plans

/-!
# Running a plan

`m2022_service_execute` carries out the steps of a plan and stops at the first
failure that is not ignored.  What the machine answers is a parameter: the
result of each attempt of each step, zero for success.  For the step that waits
for IPP an attempt is one try to connect.
-/

namespace Airbridge.Service

/-! ## One step -/

/-- The loop that runs a command again: `left` attempts remain, the next one is
attempt `k`, and `rc` is the result of the last. -/
def retryRun (attempt : Nat → Int) : Nat → Nat → Int → Int
  | 0, _, rc => rc
  | left + 1, k, rc => if rc ≠ 0 then retryRun attempt left (k + 1) (attempt k) else rc

/-- The value of `tries` behind `while (!ipp_port_open(s->port) && tries++ <
60)`, from `tries` on with `left = 60 - tries`. -/
def waitTries (attempt : Nat → Int) : Nat → Nat → Nat
  | 0, tries => if attempt tries = 0 then tries else tries + 1
  | left + 1, tries => if attempt tries = 0 then tries else waitTries attempt left (tries + 1)

/-- The result of a step. -/
def stepRc (attempt : Nat → Int) (s : Step) : Int :=
  match s.kind with
  | .run => retryRun attempt s.retries 1 (attempt 0)
  | .write | .mkdir | .copy | .remove => attempt 0
  | .waitIpp => if waitTries attempt 60 0 ≤ 60 then 0 else -1
  | .note => 0

/-- `m2022_service_execute`. -/
def execute (attempt : Nat → Nat → Int) (plan : List Step) : Plan.Outcome Step :=
  Plan.run (fun i s => stepRc (attempt i) s) Step.ignoreFailure plan

/-! ## Success on some attempt -/

/-- How often a step is attempted before it counts as failed. -/
def attempts (s : Step) : Nat :=
  match s.kind with
  | .run => s.retries + 1
  | .waitIpp => 61
  | _ => 1

/-- The step succeeds on one of its attempts; a note has nothing to fail. -/
def Succeeds (attempt : Nat → Int) (s : Step) : Prop :=
  s.kind = .note ∨ ∃ k < attempts s, attempt k = 0

theorem retryRun_eq_zero (attempt : Nat → Int) (left k : Nat) (rc : Int) :
    retryRun attempt left k rc = 0 ↔ rc = 0 ∨ ∃ j < left, attempt (k + j) = 0 := by
  induction left generalizing k rc with
  | zero => simp [retryRun]
  | succ left ih =>
    rw [retryRun]
    by_cases hrc : rc = 0
    · rw [if_neg (not_not_intro hrc)]
      exact ⟨.inl, fun _ => hrc⟩
    · rw [if_pos hrc, ih]
      constructor
      · rintro (h0 | ⟨j, hj, h⟩)
        · exact .inr ⟨0, Nat.succ_pos left, h0⟩
        · refine .inr ⟨j + 1, Nat.succ_lt_succ hj, ?_⟩
          rwa [← Nat.add_assoc, Nat.add_right_comm]
      · rintro (h0 | ⟨j, hj, h⟩)
        · exact absurd h0 hrc
        · cases j with
          | zero => exact .inl h
          | succ j =>
            refine .inr ⟨j, Nat.lt_of_succ_lt_succ hj, ?_⟩
            rwa [← Nat.add_assoc, Nat.add_right_comm] at h

/-- The counter ends above its limit only when no try was answered. -/
theorem waitTries_le (attempt : Nat → Int) (left tries : Nat) :
    waitTries attempt left tries ≤ tries + left ↔
      ∃ j < left + 1, attempt (tries + j) = 0 := by
  induction left generalizing tries with
  | zero =>
    rw [waitTries]
    by_cases h : attempt tries = 0
    · rw [if_pos h]
      exact iff_of_true (Nat.le_refl _) ⟨0, Nat.one_pos, h⟩
    · rw [if_neg h]
      refine iff_of_false (by omega) ?_
      rintro ⟨j, hj, hzero⟩
      obtain rfl : j = 0 := by omega
      exact h hzero
  | succ left ih =>
    rw [waitTries]
    by_cases h : attempt tries = 0
    · rw [if_pos h]
      exact iff_of_true (by omega) ⟨0, Nat.succ_pos _, h⟩
    · rw [if_neg h, show tries + (left + 1) = tries + 1 + left by omega, ih]
      constructor
      · rintro ⟨j, hj, hzero⟩
        refine ⟨j + 1, by omega, ?_⟩
        rwa [← Nat.add_assoc, Nat.add_right_comm]
      · rintro ⟨j, hj, hzero⟩
        cases j with
        | zero => exact absurd hzero h
        | succ j =>
          refine ⟨j, by omega, ?_⟩
          rwa [← Nat.add_assoc, Nat.add_right_comm] at hzero

/-- A step has the result zero if and only if one of its attempts succeeds. -/
theorem stepRc_eq_zero (attempt : Nat → Int) (s : Step) :
    stepRc attempt s = 0 ↔ Succeeds attempt s := by
  have hone : attempt 0 = 0 ↔ ∃ k < 1, attempt k = 0 := by
    constructor
    · exact fun h => ⟨0, Nat.one_pos, h⟩
    · rintro ⟨k, hk, h⟩
      obtain rfl : k = 0 := by omega
      exact h
  unfold stepRc Succeeds attempts
  cases hkind : s.kind with
  | run =>
    dsimp only
    rw [retryRun_eq_zero]
    constructor
    · rintro (h | ⟨j, hj, h⟩)
      · exact .inr ⟨0, Nat.succ_pos _, h⟩
      · exact .inr ⟨1 + j, by omega, h⟩
    · rintro (h | ⟨k, hk, h⟩)
      · exact absurd h (by decide)
      · cases k with
        | zero => exact .inl h
        | succ k => exact .inr ⟨k, by omega, by rwa [Nat.add_comm]⟩
  | waitIpp =>
    have htries := waitTries_le attempt 60 0
    simp only [Nat.zero_add] at htries
    dsimp only
    constructor
    · intro h
      split_ifs at h with hle
      exact .inr (htries.mp hle)
    · rintro (h | h)
      · exact absurd h (by decide)
      · rw [if_pos (htries.mpr h)]
  | note => exact iff_of_true rfl (.inl rfl)
  | write => exact hone.trans ⟨.inr, fun h => h.resolve_left (by decide)⟩
  | mkdir => exact hone.trans ⟨.inr, fun h => h.resolve_left (by decide)⟩
  | copy => exact hone.trans ⟨.inr, fun h => h.resolve_left (by decide)⟩
  | remove => exact hone.trans ⟨.inr, fun h => h.resolve_left (by decide)⟩

/-- A step does not end the run if and only if its failure is ignored or one of
its attempts succeeds. -/
theorem passes_iff (attempt : Nat → Nat → Int) (i : Nat) (s : Step) :
    Plan.Passes (fun i s => stepRc (attempt i) s) Step.ignoreFailure i s ↔
      (s.ignoreFailure = false → Succeeds (attempt i) s) := by
  unfold Plan.Passes
  rw [stepRc_eq_zero]
  cases s.ignoreFailure with
  | true => exact iff_of_true (.inr rfl) (fun h => absurd h (by decide))
  | false => exact ⟨fun h _ => h.resolve_right (by decide), fun h => .inl (h rfl)⟩

end Airbridge.Service
