import Mathlib.Data.List.Nodup
import Mathlib.Order.RelClasses
import Mathlib.Tactic.SplitIfs

/-!
# Taking turns

Two sides take turns at a set, and each takes the entry that comes first in its
own order.  `leftOver` runs this on the two lists of the free entries, and
`ranking_leftOver` says that it follows any process that takes the least entry
at each turn.  `sortBy` makes such lists; it runs by structural recursion, so
that the kernel can evaluate it.
-/

namespace Turns

variable {α : Type*}

/-! ## Sorted lists -/

/-- Two lists in one, the smaller key first, over `n` entries. -/
def mergeBy (key : α → Nat) : Nat → List α → List α → List α
  | 0, xs, ys => xs ++ ys
  | _ + 1, [], ys => ys
  | _ + 1, xs, [] => xs
  | n + 1, x :: xs, y :: ys =>
    bif (key x).ble (key y) then x :: mergeBy key n xs (y :: ys)
    else y :: mergeBy key n (x :: xs) ys

theorem mergeBy_perm (key : α → Nat) (n : Nat) (xs ys : List α) :
    (mergeBy key n xs ys).Perm (xs ++ ys) := by
  fun_induction mergeBy key n xs ys with
  | case1 | case2 => exact List.Perm.refl _
  | case3 => rw [List.append_nil]
  | case4 n x xs y ys hle ih => exact ih.cons x
  | case5 n x xs y ys hlt ih => exact (ih.cons y).trans List.perm_middle.symm

/-- A list by key, halved `depth` times. -/
def sortBy (key : α → Nat) : Nat → List α → List α
  | 0, xs => xs
  | depth + 1, xs =>
    let half := xs.length / 2
    mergeBy key xs.length (sortBy key depth (xs.take half)) (sortBy key depth (xs.drop half))

theorem sortBy_perm (key : α → Nat) (depth : Nat) (xs : List α) :
    (sortBy key depth xs).Perm xs := by
  induction depth generalizing xs with
  | zero => exact List.Perm.refl xs
  | succ depth ih =>
    calc sortBy key (depth + 1) xs
      _ |>.Perm (sortBy key depth (xs.take (xs.length / 2)) ++
            sortBy key depth (xs.drop (xs.length / 2))) := mergeBy_perm key _ _ _
      _ |>.Perm (xs.take (xs.length / 2) ++ xs.drop (xs.length / 2)) := (ih _).append (ih _)
      _ = xs := List.take_append_drop _ _

/-! ## Turns -/

section
variable {before : α → α → Prop} {free : α → Prop} {a : α} {xs : List α}

/-- The free entries in the order of a side. -/
structure Ranking (before : α → α → Prop) (free : α → Prop) (xs : List α) : Prop where
  mem : ∀ a, a ∈ xs ↔ free a
  sorted : xs.Pairwise before

/-- A free entry in front of all others. -/
structure Least (before : α → α → Prop) (free : α → Prop) (a : α) : Prop where
  isFree : free a
  first : ∀ b, free b → b ≠ a → before a b

theorem Ranking.least (h : Ranking before free (a :: xs)) : Least before free a := by
  refine ⟨(h.mem a).mp List.mem_cons_self, fun b hb hne => ?_⟩
  rcases List.mem_cons.mp ((h.mem b).mpr hb) with rfl | hb
  · exact absurd rfl hne
  · exact List.rel_of_pairwise_cons h.sorted hb

variable [DecidableEq α] [Std.Irrefl before]

/-- The entries that are left when one is taken. -/
theorem Ranking.erase (h : Ranking before free xs) (a : α) :
    Ranking before (fun b => free b ∧ b ≠ a) (xs.erase a) := by
  have hnodup : xs.Nodup := h.sorted.imp fun {x y} hxy heq => by
    subst heq
    exact Std.Irrefl.irrefl x hxy
  refine ⟨fun b => ?_, h.sorted.sublist List.erase_sublist⟩
  rw [hnodup.mem_erase_iff, h.mem, and_comm]

end

/-- What is left behind `n` turns, for the side that takes next. -/
def leftOver [DecidableEq α] : Nat → List α → List α → List α
  | 0, mine, _ => mine
  | _ + 1, [], _ => []
  | n + 1, a :: mine, other => leftOver n (other.erase a) mine

/-- A process that takes the least free entry at each turn, in one order and the
other by turns. -/
theorem ranking_leftOver [DecidableEq α] {before : Nat → α → α → Prop} {free : Nat → α → Prop}
    (hirrefl : ∀ k, Std.Irrefl (before k)) (hturns : ∀ k, before (k + 2) = before k)
    (htake : ∀ k a, Least (before k) (free k) a → ∀ b, free (k + 1) b ↔ free k b ∧ b ≠ a)
    (hnone : ∀ k, (∀ a, ¬free k a) → ∀ a, ¬free (k + 1) a) {k : Nat} {mine other : List α}
    (hmine : Ranking (before k) (free k) mine) (hother : Ranking (before (k + 1)) (free k) other)
    (n : Nat) : Ranking (before (k + n)) (free (k + n)) (leftOver n mine other) := by
  induction n generalizing k mine other with
  | zero => exact hmine
  | succ n ih =>
    have hirrefl' := hirrefl (k + 1)
    have hirrefl := hirrefl k
    rw [Nat.add_comm n 1, ← Nat.add_assoc, Nat.add_comm 1 n]
    cases mine with
    | nil =>
      have hempty : ∀ j a, ¬free (k + j) a := by
        intro j
        induction j with
        | zero => exact fun a ha => absurd ((hmine.mem a).mpr ha) List.not_mem_nil
        | succ j ih => exact hnone (k + j) ih
      refine ⟨fun a => iff_of_false List.not_mem_nil ?_, List.Pairwise.nil⟩
      rw [Nat.add_assoc]
      exact hempty (1 + n) a
    | cons a mine =>
      have hfree : free (k + 1) = fun b => free k b ∧ b ≠ a :=
        funext fun b => propext (htake k a hmine.least b)
      have hrest : Ranking (before k) (free (k + 1)) mine := by
        rw [hfree, ← List.erase_cons_head a mine]
        exact hmine.erase a
      refine ih ?_ ?_
      · rw [hfree]
        exact hother.erase a
      · rw [Nat.add_assoc, hturns]
        exact hrest

end Turns
