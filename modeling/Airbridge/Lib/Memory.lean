import Airbridge.Lib.Buffer

/-!
# Allocations and accesses

An allocator answers a sequence of calls, each with a fresh block or with
nothing.  A program over it records what it touches as a list of accesses,
each a range of cells and the size of the block the pointer belongs to, so
that "stays inside its buffers" is a statement about that list.
-/

namespace Memory

variable {α : Type*}

/-- The allocator.  `answer n size` is what call `n` returns for `size` cells,
`none` for a null pointer, and a block has the size that was asked for. -/
structure Heap (α : Type*) where
  answer : Nat → Nat → Option (List α)
  length_eq : ∀ {n size : Nat} {block : List α}, answer n size = some block → block.length = size
  calls : Nat

namespace Heap

/-- No call fails. -/
def Succeeds (h : Heap α) : Prop := ∀ n size, (h.answer n size).isSome

def malloc (h : Heap α) (size : Nat) : Option (List α) × Heap α :=
  (h.answer h.calls size, { h with calls := h.calls + 1 })

/-- A block whose cells are all `zero`. -/
def calloc (h : Heap α) (zero : α) (size : Nat) : Option (List α) × Heap α :=
  ((h.answer h.calls size).map fun block => block.map fun _ => zero, { h with calls := h.calls + 1 })

theorem length_malloc {h : Heap α} {size : Nat} {block : List α}
    (hblock : (h.malloc size).1 = some block) : block.length = size := h.length_eq hblock

theorem length_calloc {h : Heap α} {zero : α} {size : Nat} {block : List α}
    (hblock : (h.calloc zero size).1 = some block) : block.length = size := by
  obtain ⟨cells, hcells, rfl⟩ := Option.map_eq_some_iff.mp hblock
  rw [List.length_map, h.length_eq hcells]

theorem Succeeds.malloc {h : Heap α} (hs : h.Succeeds) (size : Nat) : (h.malloc size).2.Succeeds := hs

theorem Succeeds.calloc {h : Heap α} (hs : h.Succeeds) (zero : α) (size : Nat) :
    (h.calloc zero size).2.Succeeds := hs

theorem malloc_succeeds {h : Heap α} (hs : h.Succeeds) (size : Nat) :
    ∃ block, (h.malloc size).1 = some block ∧ block.length = size := by
  obtain ⟨block, hblock⟩ := Option.isSome_iff_exists.mp (hs h.calls size)
  exact ⟨block, hblock, h.length_eq hblock⟩

theorem calloc_succeeds {h : Heap α} (hs : h.Succeeds) (zero : α) (size : Nat) :
    (h.calloc zero size).1 = some (List.replicate size zero) := by
  obtain ⟨block, hblock⟩ := Option.isSome_iff_exists.mp (hs h.calls size)
  rw [calloc, hblock, Option.map_some, List.map_const', h.length_eq hblock]

end Heap

/-- An allocator that never fails. -/
def zeroHeap : Heap UInt8 where
  answer := fun _ size => some (List.replicate size 0)
  length_eq := fun h => by rw [← Option.some_inj.mp h, List.length_replicate]
  calls := 0

theorem zeroHeap_succeeds : zeroHeap.Succeeds := fun _ _ => rfl

/-- The `len` cells from `start` on, of a block of `size` cells. -/
structure Access where
  start : Nat
  len : Nat
  size : Nat
deriving Repr, DecidableEq

/-- All cells of the access lie in the block. -/
def Access.Inside (a : Access) : Prop := a.start + a.len ≤ a.size

instance (a : Access) : Decidable a.Inside := inferInstanceAs (Decidable (_ ≤ _))

end Memory
