import Mathlib.Data.List.GetD
import Mathlib.Data.List.Nodup

/-!
# Fixed-size buffers

A buffer is the list of its cells.  `store` writes a run of cells at an offset
and never changes the length, `load` reads a run, and `setAll` is a loop of
single-cell writes.  The lemmas say what a later read sees after a write at
the same place, inside the place read, or beside it.
-/

namespace Buffer

variable {α β ι : Type*}

/-- Write `data` into `mem` from cell `off` on.  What would fall past the end
of `mem` is not stored. -/
def store (mem : List α) (off : Nat) (data : List α) : List α :=
  mem.mapIdx fun i b => if off ≤ i then (data[i - off]?).getD b else b

/-- The `len` cells of `mem` from cell `off` on. -/
def load (mem : List α) (off len : Nat) : List α := (mem.drop off).take len

@[simp] theorem length_store (mem : List α) (off : Nat) (data : List α) :
    (store mem off data).length = mem.length := by
  simp [store]

theorem length_load (mem : List α) (off len : Nat) :
    (load mem off len).length = min len (mem.length - off) := by
  simp [load]

theorem length_load_of_le {mem : List α} {off len : Nat} (h : off + len ≤ mem.length) :
    (load mem off len).length = len := by
  rw [length_load]
  omega

/-- Two runs of cells, one behind the other. -/
theorem load_add (mem : List α) (off m n : Nat) :
    load mem off (m + n) = load mem off m ++ load mem (off + m) n := by
  rw [load, load, load, List.take_add, List.drop_drop]

theorem getElem?_load (mem : List α) (off len i : Nat) :
    (load mem off len)[i]? = if i < len then mem[off + i]? else none := by
  simp [load, List.getElem?_take, List.getElem?_drop]

/-- Cells of a run of cells. -/
theorem load_load (mem : List α) (off : Nat) {len o n : Nat} (h : o + n ≤ len) :
    load (load mem off len) o n = load mem (off + o) n := by
  apply List.ext_getElem?
  intro i
  simp only [getElem?_load]
  split_ifs
  · rw [Nat.add_assoc]
  · omega
  · rfl

theorem getElem?_store (mem : List α) (off : Nat) (data : List α) (i : Nat) :
    (store mem off data)[i]? =
      if off ≤ i ∧ i < off + data.length ∧ i < mem.length then data[i - off]?
      else mem[i]? := by
  simp only [store, List.getElem?_mapIdx]
  by_cases hi : i < mem.length
  · rw [List.getElem?_eq_getElem hi, Option.map_some]
    split_ifs with h1 h2 h2
    · rw [List.getElem?_eq_getElem (by omega)]
      rfl
    · rw [List.getElem?_eq_none (by omega)]
      rfl
    · exact absurd h2.1 h1
    · rfl
  · rw [List.getElem?_eq_none (Nat.le_of_not_lt hi), if_neg (by omega)]
    rfl

/-- What was stored is read back. -/
theorem load_store_same (mem : List α) (off : Nat) (data : List α)
    (h : off + data.length ≤ mem.length) :
    load (store mem off data) off data.length = data := by
  apply List.ext_getElem?
  intro i
  rw [getElem?_load, getElem?_store]
  split_ifs with h1 h2
  · rw [Nat.add_sub_cancel_left]
  · omega
  · rw [List.getElem?_eq_none (by omega)]

/-- A store beside the cells read does not change them. -/
theorem load_store_disjoint {mem : List α} {off : Nat} {data : List α} {o n : Nat}
    (h : off + data.length ≤ o ∨ o + n ≤ off) :
    load (store mem off data) o n = load mem o n := by
  apply List.ext_getElem?
  intro i
  rw [getElem?_load, getElem?_load]
  split_ifs with hi
  · rw [getElem?_store, if_neg (by omega)]
  · rfl

/-- A store inside the cells read is a store into what was read. -/
theorem load_store_within {mem : List α} {off : Nat} {data : List α} {o n : Nat}
    (hlo : o ≤ off) (hmem : o + n ≤ mem.length) :
    load (store mem off data) o n = store (load mem o n) (off - o) data := by
  apply List.ext_getElem?
  intro i
  rw [getElem?_load, getElem?_store, getElem?_store, getElem?_load,
    length_load_of_le hmem]
  by_cases h1 : i < n
  · rw [if_pos h1, if_pos h1]
    split_ifs <;> first | rfl | omega | (congr 1; omega)
  · rw [if_neg h1, if_neg h1, if_neg (by omega)]

/-- A store replaces the middle of a list by a list of the same length. -/
theorem store_append {a b c data : List α} (h : data.length = b.length) :
    store (a ++ b ++ c) a.length data = a ++ data ++ c := by
  apply List.ext_getElem?
  intro i
  rw [getElem?_store]
  simp only [List.getElem?_append, List.length_append]
  split_ifs <;> first | rfl | omega | (congr 1; omega)

/-- What a store inside the buffer leaves. -/
theorem store_eq {mem data : List α} {off : Nat} (h : off + data.length ≤ mem.length) :
    store mem off data = mem.take off ++ data ++ mem.drop (off + data.length) := by
  have hoff : (mem.take off).length = off := List.length_take_of_le (by omega)
  have hmid : data.length = ((mem.drop off).take data.length).length := by
    rw [List.length_take, List.length_drop]
    omega
  have hsplit : mem = mem.take off ++ (mem.drop off).take data.length ++
      mem.drop (off + data.length) := by
    rw [List.append_assoc, ← List.drop_drop, List.take_append_drop, List.take_append_drop]
  have hstore := store_append (a := mem.take off) (c := mem.drop (off + data.length)) hmid
  rw [← hsplit, hoff] at hstore
  exact hstore

/-- The cells up to some of those stored. -/
theorem take_store {mem data : List α} {off n : Nat} (hn : n ≤ data.length)
    (h : off + data.length ≤ mem.length) :
    (store mem off data).take (off + n) = mem.take off ++ data.take n := by
  have hoff : (mem.take off).length = off := List.length_take_of_le (by omega)
  rw [store_eq h, List.append_assoc, List.take_append, hoff, Nat.add_sub_cancel_left,
    List.take_of_length_le (by rw [hoff]; exact Nat.le_add_right off n),
    List.take_append_of_le_length hn]

/-- Storing a whole buffer. -/
theorem store_zero {mem data : List α} (h : data.length = mem.length) :
    store mem 0 data = data := by
  simpa using store_append (a := []) (b := mem) (c := []) h

/-- A cell that was stored is read back. -/
theorem getElem?_store_add {mem data : List α} {off i : Nat} (hi : i < data.length)
    (hmem : off + i < mem.length) : (store mem off data)[off + i]? = data[i]? := by
  rw [getElem?_store, if_pos (by omega), Nat.add_sub_cancel_left]

/-- A cell of a run of equal cells that was stored. -/
theorem getD_store_replicate {mem : List α} {off n i : Nat} {c d : α} (hi : i < n)
    (hmem : off + n ≤ mem.length) :
    (store mem off (List.replicate n c)).getD (off + i) d = c := by
  have hlen : i < (List.replicate n c).length := by
    rw [List.length_replicate]
    exact hi
  rw [List.getD_eq_getElem?_getD, getElem?_store_add hlen (by omega), List.getElem?_replicate,
    if_pos hi, Option.getD_some]

/-- A store beside a cell does not change it. -/
theorem getD_store_outside {mem data : List α} {off i : Nat} {d : α}
    (h : i < off ∨ off + data.length ≤ i) : (store mem off data).getD i d = mem.getD i d := by
  rw [List.getD_eq_getElem?_getD, getElem?_store, if_neg (by omega), ← List.getD_eq_getElem?_getD]

/-- What holds of the cells and of the default holds of what is read. -/
theorem getD_of_all {P : α → Prop} {mem : List α} {d : α} (h : ∀ b ∈ mem, P b) (hd : P d)
    (i : Nat) : P (mem.getD i d) := by
  by_cases hi : i < mem.length
  · rw [List.getD_eq_getElem _ _ hi]
    exact h _ (List.getElem_mem hi)
  · rw [List.getD_eq_default _ _ (Nat.le_of_not_lt hi)]
    exact hd

/-- Storing over the last cell of what was stored. -/
theorem store_snoc (mem a : List α) (off : Nat) (b c : α) :
    store (store mem off (a ++ [b])) (off + a.length) [c] = store mem off (a ++ [c]) := by
  apply List.ext_getElem?
  intro i
  simp only [getElem?_store, length_store, List.length_append, List.length_singleton,
    List.getElem?_append]
  split_ifs <;> first | rfl | omega | (congr 1; omega)

/-- Rows of one length laid out one after the other are read back by their
number. -/
theorem load_flatMap {f : β → List α} {n : Nat} (hf : ∀ b, (f b).length = n) (rows : List β)
    (rest : List α) {i : Nat} (hi : i < rows.length) :
    load (rows.flatMap f ++ rest) (i * n) n = f rows[i] := by
  have hlen : ∀ l : List β, (l.flatMap f).length = l.length * n := by
    intro l
    simp [List.length_flatMap, hf]
  have hsplit : rows.flatMap f ++ rest =
      (rows.take i).flatMap f ++ (f rows[i] ++ ((rows.drop (i + 1)).flatMap f ++ rest)) := by
    calc rows.flatMap f ++ rest
        = (rows.take i ++ rows[i] :: rows.drop (i + 1)).flatMap f ++ rest := by
          rw [← List.drop_eq_getElem_cons hi, List.take_append_drop]
      _ = _ := by simp only [List.flatMap_append, List.flatMap_cons, List.append_assoc]
  have hfront : ((rows.take i).flatMap f).length = i * n := by
    rw [hlen, List.length_take_of_le (Nat.le_of_lt hi)]
  rw [load, hsplit, List.drop_left' hfront, List.take_left' (hf _)]

/-! ## Loops of single-cell writes -/

/-- The loop that writes `val k` into cell `idx k`, for each `k` in turn. -/
def setAll (idx : ι → Nat) (val : ι → α) (ks : List ι) (mem : List α) : List α :=
  ks.foldl (fun mem k => mem.set (idx k) (val k)) mem

@[simp] theorem length_setAll (idx : ι → Nat) (val : ι → α) (ks : List ι) (mem : List α) :
    (setAll idx val ks mem).length = mem.length := by
  induction ks generalizing mem with
  | nil => rfl
  | cons k ks ih =>
    rw [setAll, List.foldl_cons, ← setAll, ih, List.length_set]

/-- A cell that no step writes keeps its value. -/
theorem getElem?_setAll_of_not_mem (idx : ι → Nat) (val : ι → α) (ks : List ι) (mem : List α)
    {i : Nat} (h : ∀ k ∈ ks, idx k ≠ i) : (setAll idx val ks mem)[i]? = mem[i]? := by
  induction ks generalizing mem with
  | nil => rfl
  | cons k ks ih =>
    rw [setAll, List.foldl_cons, ← setAll, ih _ fun k' hk' => h k' (List.mem_cons_of_mem _ hk'),
      List.getElem?_set_ne (h k List.mem_cons_self)]

/-- When no two steps write the same cell, each cell written holds its own
step's value. -/
theorem getElem?_setAll_of_mem (idx : ι → Nat) (val : ι → α) (ks : List ι) (mem : List α)
    (hinj : (ks.map idx).Nodup) {k : ι} (hk : k ∈ ks) (hlt : idx k < mem.length) :
    (setAll idx val ks mem)[idx k]? = some (val k) := by
  induction ks generalizing mem with
  | nil => simp at hk
  | cons k' ks ih =>
    rw [List.map_cons, List.nodup_cons] at hinj
    rw [setAll, List.foldl_cons, ← setAll]
    by_cases hmem : k ∈ ks
    · exact ih _ hinj.2 hmem (by simpa using hlt)
    · obtain rfl : k = k' := by simpa [hmem] using hk
      have hne : ∀ k₂ ∈ ks, idx k₂ ≠ idx k := fun k₂ hk₂ he =>
        hinj.1 (he ▸ List.mem_map_of_mem hk₂)
      rw [getElem?_setAll_of_not_mem idx val ks _ hne, List.getElem?_set_self hlt]

/-- A loop that copies every cell through an involution, to places of its own,
is undone by the loop that copies the cells back. -/
theorem setAll_copy_back {f : α → α} (hf : ∀ a, f (f a) = a) {there back : ι → Nat} {ks : List ι}
    {src mid out : List α} (d : α) (hthere : (ks.map there).Nodup) (hback : (ks.map back).Nodup)
    (hmid : ∀ k ∈ ks, there k < mid.length) (hout : out.length = src.length)
    (hcover : ∀ i < src.length, ∃ k ∈ ks, back k = i) :
    setAll back (fun k => f ((setAll there (fun k => f (src.getD (back k) d)) ks mid).getD
      (there k) d)) ks out = src := by
  apply List.ext_getElem (by rw [length_setAll, hout])
  intro i hi hsrc
  obtain ⟨k, hk, rfl⟩ := hcover i hsrc
  have hcopied := getElem?_setAll_of_mem there (fun k => f (src.getD (back k) d)) ks mid hthere hk
    (hmid k hk)
  rw [← Option.some_inj, ← List.getElem?_eq_getElem hi, ← List.getElem?_eq_getElem hsrc,
    getElem?_setAll_of_mem back _ ks out hback hk (by rw [hout]; exact hsrc),
    List.getD_eq_getElem?_getD, hcopied, Option.getD_some, hf, List.getElem?_eq_getElem hsrc,
    List.getD_eq_getElem _ _ hsrc]

end Buffer
