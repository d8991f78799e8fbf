import Mathlib.Data.List.Basic

/-!
# Listings into an array

A producer stores the items it finds into an array while there is room, and
returns how many it found, which may be more than it stored.  Its consumers
read the entries below a count.  An array is the list of the entries that were
stored: a loop that reads an entry which was not stored has no result, so what
is to be proved of a consumer is that it has one.
-/

namespace Listing

variable {α β : Type*}

/-! ## The producer -/

/-- The first `max` items are stored, and all of them are counted. -/
def listing (max : Nat) (xs : List α) : List α × Nat := (xs.take max, xs.length)

/-- One more item: the entries stored, and the count. -/
def push (max : Nat) (s : List α × Nat) (x : α) : List α × Nat :=
  (if s.2 < max then s.1 ++ [x] else s.1, s.2 + 1)

@[simp] theorem listing_nil (max : Nat) : listing max ([] : List α) = ([], 0) := by
  simp [listing]

theorem push_listing (max : Nat) (xs : List α) (x : α) :
    push max (listing max xs) x = listing max (xs ++ [x]) := by
  rw [push, listing, listing, List.length_append]
  refine Prod.ext ?_ rfl
  dsimp only
  by_cases hroom : xs.length < max
  · rw [if_pos hroom, List.take_of_length_le (Nat.le_of_lt hroom),
      List.take_of_length_le (by simpa using Nat.succ_le_of_lt hroom)]
  · rw [if_neg hroom, List.take_append_of_le_length (Nat.not_lt.mp hroom)]

/-- A loop that pushes what it finds in each of its inputs lists what it finds
in all of them. -/
theorem foldl_push {σ : Type*} (step : σ → α → σ) (view : σ → List β × Nat) {max : Nat}
    (find : α → Option β)
    (hstep : ∀ s x, view (step s x) = match find x with
      | none => view s
      | some y => push max (view s) y)
    (s : σ) (seen : List β) (hs : view s = listing max seen) (xs : List α) :
    view (xs.foldl step s) = listing max (seen ++ xs.filterMap find) := by
  induction xs generalizing s seen with
  | nil => rw [List.filterMap_nil, List.append_nil, List.foldl_nil, hs]
  | cons x xs ih =>
    have hx := hstep s x
    rw [List.foldl_cons]
    cases hfind : find x with
    | none =>
      rw [hfind] at hx
      rw [List.filterMap_cons_none hfind]
      exact ih _ _ (hx.trans hs)
    | some y =>
      rw [hfind] at hx
      dsimp only at hx
      rw [hs, push_listing] at hx
      rw [List.filterMap_cons_some hfind, List.append_cons]
      exact ih _ _ hx

/-! ## Consumers -/

/-- The entries below `n`. -/
def entries : List α → Nat → Option (List α)
  | _, 0 => some []
  | [], _ + 1 => none
  | x :: xs, n + 1 => (entries xs n).map (x :: ·)

theorem entries_eq (xs : List α) (n : Nat) :
    entries xs n = if n ≤ xs.length then some (xs.take n) else none := by
  induction xs generalizing n with
  | nil =>
    cases n with
    | zero => rfl
    | succ n => rfl
  | cons x xs ih =>
    cases n with
    | zero => rfl
    | succ n =>
      rw [entries, ih, List.length_cons, List.take_succ_cons]
      by_cases hle : n ≤ xs.length
      · rw [if_pos hle, if_pos (Nat.succ_le_succ hle)]
        rfl
      · rw [if_neg hle, if_neg fun h => hle (Nat.le_of_succ_le_succ h)]
        rfl

/-- All entries of a listing are read if the count is that of the stored ones. -/
theorem entries_listing (max : Nat) (xs : List α) :
    entries (listing max xs).1 (listing max xs).2 = if xs.length ≤ max then some xs else none := by
  rw [entries_eq, listing]
  dsimp only
  rw [List.length_take]
  by_cases hle : xs.length ≤ max
  · rw [if_pos hle, if_pos (by omega), List.take_of_length_le hle, List.take_length]
  · rw [if_neg hle, if_neg (by omega)]

/-- A count that was cut at the capacity. -/
theorem entries_cut (max : Nat) (xs : List α) :
    entries (listing max xs).1 (min (listing max xs).2 max) = some (xs.take max) := by
  rw [entries_eq, listing]
  dsimp only
  rw [List.length_take, if_pos (by omega), List.take_of_length_le]
  rw [List.length_take]
  omega

/-- The loop over the entries below `n` that stops at the first one that passes
the test.  The test sees the entry and its index. -/
def search (p : Nat → α → Bool) (i : Nat) : List α → Nat → Option Bool
  | _, 0 => some false
  | [], _ + 1 => none
  | x :: xs, n + 1 => if p i x then some true else search p (i + 1) xs n

theorem search_ne_none_iff (p : Nat → α → Bool) (i : Nat) (xs : List α) (n : Nat) :
    search p i xs n ≠ none ↔
      n ≤ xs.length ∨ ∃ k x, xs[k]? = some x ∧ p (i + k) x = true := by
  induction xs generalizing i n with
  | nil =>
    cases n with
    | zero => simp [search]
    | succ n => simp [search]
  | cons x xs ih =>
    cases n with
    | zero => simp [search]
    | succ n =>
      rw [search]
      by_cases hp : p i x = true
      · rw [if_pos hp]
        exact iff_of_true (Option.some_ne_none true) (.inr ⟨0, x, rfl, hp⟩)
      · rw [if_neg hp, ih, List.length_cons, Nat.add_le_add_iff_right]
        apply or_congr_right
        constructor
        · rintro ⟨k, y, hy, hpy⟩
          refine ⟨k + 1, y, hy, ?_⟩
          rwa [← Nat.add_assoc, Nat.add_right_comm]
        · rintro ⟨k, y, hy, hpy⟩
          cases k with
          | zero =>
            rw [List.getElem?_cons_zero, Option.some_inj] at hy
            subst hy
            exact absurd hpy hp
          | succ k =>
            refine ⟨k, y, hy, ?_⟩
            rwa [Nat.add_right_comm, Nat.add_assoc]

end Listing
