import Mathlib.Data.List.Basic
import Mathlib.Tactic.SplitIfs

/-!
# Files behind names

A name leads to the number of a file, and the file keeps its number when the
name goes: a program that has it open still reads it.  An operation changes
names or one file, and a crash in a list of operations leaves what a front part
of the list did.

`Staged` says what operations on a temporary name leave alone, and
`run_replace` is the rule for replacing a file through one: whatever happens,
the target is the old file or the complete new one.
-/

namespace FileSystem

variable {P : Type*}

structure File where
  data : List UInt8
  mode : Nat
deriving Repr, DecidableEq

/-- The names, the files by their numbers, and the first number that is free. -/
structure Fs (P : Type*) where
  names : P → Option Nat
  files : Nat → File
  next : Nat
  names_lt : ∀ p i, names p = some i → i < next

/-- The file that `create` writes to: the one behind the name, or a new one. -/
def Fs.number (fs : Fs P) (p : P) : Nat := (fs.names p).getD fs.next

theorem number_ne {fs : Fs P} {p q : P} {i : Nat} (hq : fs.names q = some i)
    (hne : fs.names q ≠ fs.names p) : i ≠ fs.number p := by
  unfold Fs.number
  cases hp : fs.names p with
  | none =>
    have hlt := fs.names_lt q i hq
    rw [Option.getD_none]
    omega
  | some j =>
    rw [Option.getD_some]
    rintro rfl
    exact hne (hq.trans hp.symm)

/-- Change the file with the number `i`. -/
def Fs.modify (fs : Fs P) (i : Nat) (f : File → File) : Fs P :=
  { fs with files := fun j => if j = i then f (fs.files j) else fs.files j }

theorem modify_file (fs : Fs P) (i : Nat) (f : File → File) :
    (fs.modify i f).files i = f (fs.files i) := if_pos rfl

theorem modify_file_of_ne {fs : Fs P} {i j : Nat} {f : File → File} (h : j ≠ i) :
    (fs.modify i f).files j = fs.files j := if_neg h

/-! ## A temporary name -/

/-- A file that only the temporary name `t` can have led to: the one it led to
before, or a new one. -/
def Temporary (t : P) (before : Fs P) (i : Nat) : Prop :=
  before.names t = some i ∨ before.next ≤ i

/-- What operations on a temporary name leave alone. -/
structure Staged (t : P) (before now : Fs P) : Prop where
  names : ∀ p, p ≠ t → now.names p = before.names p
  files : ∀ i, ¬Temporary t before i → now.files i = before.files i
  temporary : ∀ i, now.names t = some i → Temporary t before i
  next : before.next ≤ now.next

theorem Staged.refl (t : P) (fs : Fs P) : Staged t fs fs where
  names := fun _ _ => rfl
  files := fun _ _ => rfl
  temporary := fun _ h => .inl h
  next := Nat.le_refl _

section
variable {t : P} {before now : Fs P}

theorem Staged.number (h : Staged t before now) : Temporary t before (now.number t) := by
  unfold Fs.number
  cases ht : now.names t with
  | none => exact .inr h.next
  | some i => exact h.temporary i ht

theorem Staged.modify (h : Staged t before now) {i : Nat} (hi : Temporary t before i)
    (f : File → File) : Staged t before (now.modify i f) where
  names := h.names
  files := by
    intro j hj
    have hne : j ≠ i := by
      rintro rfl
      exact hj hi
    rw [modify_file_of_ne hne, h.files j hj]
  temporary := h.temporary
  next := h.next

end

/-! ## Operations -/

variable [DecidableEq P]

/-- Open for writing: an old file is made empty and keeps its mode. -/
def Fs.create (fs : Fs P) (p : P) (mode : Nat) : Fs P where
  names := fun q => if q = p then some (fs.number p) else fs.names q
  files := fun i =>
    if i = fs.number p then ⟨[], if (fs.names p).isSome then (fs.files i).mode else mode⟩
    else fs.files i
  next := if (fs.names p).isSome then fs.next else fs.next + 1
  names_lt := by
    intro q i hq
    have hnext : fs.next ≤ if (fs.names p).isSome then fs.next else fs.next + 1 := by
      split_ifs <;> omega
    by_cases hqp : q = p
    · rw [if_pos hqp, Option.some_inj, Fs.number] at hq
      cases hp : fs.names p with
      | none =>
        rw [hp, Option.getD_none] at hq
        simp only [Option.isSome_none, Bool.false_eq_true, if_false]
        omega
      | some j =>
        rw [hp, Option.getD_some] at hq
        have hlt := fs.names_lt p j hp
        simp only [Option.isSome_some, if_true]
        omega
    · rw [if_neg hqp] at hq
      exact Nat.lt_of_lt_of_le (fs.names_lt q i hq) hnext

/-- Take a name away. -/
def Fs.unlink (fs : Fs P) (p : P) : Fs P where
  names := fun q => if q = p then none else fs.names q
  files := fs.files
  next := fs.next
  names_lt := by
    intro q i hq
    split_ifs at hq
    exact fs.names_lt q i hq

/-- Let `q` lead to what `p` leads to, and take `p` away.  Two names of one file
stay as they are. -/
def Fs.rename (fs : Fs P) (p q : P) : Fs P where
  names := fun r =>
    if fs.names p = none ∨ fs.names p = fs.names q then fs.names r
    else if r = q then fs.names p
    else if r = p then none
    else fs.names r
  files := fs.files
  next := fs.next
  names_lt := by
    intro r i hr
    split_ifs at hr
    · exact fs.names_lt r i hr
    · exact fs.names_lt p i hr
    · exact fs.names_lt r i hr

inductive Op (P : Type*) where
  | create (p : P) (mode : Nat)
  | append (i : Nat) (bytes : List UInt8)
  | chmod (p : P) (mode : Nat)
  | rename (p q : P)
  | unlink (p : P)
deriving Repr, DecidableEq

def Op.apply (fs : Fs P) : Op P → Fs P
  | .create p mode => fs.create p mode
  | .append i bytes => fs.modify i fun f => { f with data := f.data ++ bytes }
  | .chmod p mode =>
    match fs.names p with
    | some i => fs.modify i fun f => { f with mode := mode }
    | none => fs
  | .rename p q => fs.rename p q
  | .unlink p => fs.unlink p

def run (fs : Fs P) (ops : List (Op P)) : Fs P := ops.foldl Op.apply fs

@[simp] theorem run_nil (fs : Fs P) : run fs [] = fs := rfl

@[simp] theorem run_cons (fs : Fs P) (op : Op P) (ops : List (Op P)) :
    run fs (op :: ops) = run (op.apply fs) ops := rfl

theorem run_append (fs : Fs P) (ops ops' : List (Op P)) :
    run fs (ops ++ ops') = run (run fs ops) ops' := List.foldl_append

/-! ## What a name leads to -/

/-- The name leads to the file with this number and this content. -/
def Fs.Holds (fs : Fs P) (p : P) (i : Nat) (f : File) : Prop :=
  fs.names p = some i ∧ fs.files i = f

theorem create_holds (fs : Fs P) (p : P) (mode : Nat) :
    ∃ m, (fs.create p mode).Holds p (fs.number p) ⟨[], m⟩ :=
  ⟨_, if_pos rfl, if_pos rfl⟩

theorem create_file_of_ne {fs : Fs P} {p : P} {mode i : Nat} (h : i ≠ fs.number p) :
    (fs.create p mode).files i = fs.files i := if_neg h

/-- Opening a file for writing leaves it as it is, or empty. -/
theorem create_data (fs : Fs P) (p : P) (mode i : Nat) :
    ((fs.create p mode).files i).data <+: (fs.files i).data := by
  by_cases hi : i = fs.number p
  · have hempty : ((fs.create p mode).files i).data = [] := congrArg File.data (if_pos hi)
    rw [hempty]
    exact List.nil_prefix
  · have hsame : (fs.create p mode).files i = fs.files i := create_file_of_ne hi
    exact hsame ▸ List.prefix_refl _

/-- Pieces written to a file one after the other. -/
theorem run_appends {fs : Fs P} {p : P} {i m : Nat} {bytes : List UInt8}
    (h : fs.Holds p i ⟨bytes, m⟩) (pieces : List (List UInt8)) :
    (run fs (pieces.map (Op.append i))).Holds p i ⟨bytes ++ pieces.flatten, m⟩ := by
  induction pieces generalizing fs bytes with
  | nil => rwa [List.flatten_nil, List.append_nil]
  | cons piece pieces ih =>
    rw [List.map_cons, run_cons, List.flatten_cons, ← List.append_assoc]
    refine ih ⟨h.1, ?_⟩
    rw [Op.apply, modify_file, h.2]

theorem chmod_holds {fs : Fs P} {p : P} {i m : Nat} {bytes : List UInt8}
    (h : fs.Holds p i ⟨bytes, m⟩) (mode : Nat) :
    ((Op.chmod p mode).apply fs).Holds p i ⟨bytes, mode⟩ := by
  have happly : (Op.chmod p mode).apply fs = fs.modify i fun f => { f with mode := mode } := by
    rw [Op.apply, h.1]
  rw [happly]
  refine ⟨h.1, ?_⟩
  rw [modify_file, h.2]

/-! ## Operations on a temporary name -/

/-- An operation on the temporary name or its file. -/
def Op.Stages (t : P) (before : Fs P) : Op P → Prop
  | .create p _ | .chmod p _ | .unlink p => p = t
  | .append i _ => Temporary t before i
  | .rename _ _ => False

section
variable {t : P} {before now : Fs P}

theorem Staged.apply (h : Staged t before now) {op : Op P} (hop : op.Stages t before) :
    Staged t before (op.apply now) := by
  cases op with
  | create p mode =>
    obtain rfl : p = t := hop
    have hnumber := h.number
    refine ⟨fun q hq => ?_, fun i hi => ?_, fun i hi => ?_, ?_⟩
    · exact (if_neg hq).trans (h.names q hq)
    · have hne : i ≠ now.number p := by
        rintro rfl
        exact hi hnumber
      exact (if_neg hne).trans (h.files i hi)
    · obtain rfl : now.number p = i := Option.some_inj.mp ((if_pos rfl).symm.trans hi)
      exact hnumber
    · have hnext := h.next
      show before.next ≤ if (now.names p).isSome then now.next else now.next + 1
      split_ifs <;> omega
  | append i bytes => exact h.modify hop fun f => { f with data := f.data ++ bytes }
  | chmod p mode =>
    obtain rfl : p = t := hop
    rw [Op.apply]
    split
    next i hi => exact h.modify (h.temporary i hi) _
    next => exact h
  | rename p q => exact absurd hop not_false
  | unlink p =>
    obtain rfl : p = t := hop
    refine ⟨fun q hq => (if_neg hq).trans (h.names q hq), h.files, fun i hi => ?_, h.next⟩
    exact absurd ((if_pos rfl).symm.trans hi) (by simp)

theorem Staged.run {ops : List (Op P)} (h : Staged t before now)
    (hops : ∀ op ∈ ops, op.Stages t before) : Staged t before (run now ops) := by
  induction ops generalizing now with
  | nil => exact h
  | cons op ops ih =>
    rw [run_cons]
    exact ih (h.apply (hops op List.mem_cons_self)) fun o ho => hops o (List.mem_cons_of_mem op ho)

end

/-- The target `q` leads to the file `f`, which is not the one it led to before;
the temporary name is gone, and nothing else changed. -/
structure Replaced (t q : P) (f : File) (before now : Fs P) : Prop where
  names : ∀ p, p ≠ t → p ≠ q → now.names p = before.names p
  files : ∀ i, ¬Temporary t before i → now.files i = before.files i
  temporary : now.names t = none
  target : ∃ i, now.Holds q i f ∧ before.names q ≠ some i

theorem Staged.rename {t q : P} {before now : Fs P} {i : Nat} {f : File}
    (h : Staged t before now) (htq : q ≠ t) (hi : now.Holds t i f)
    (halone : before.names t = none ∨ before.names t ≠ before.names q) :
    Replaced t q f before (now.rename t q) := by
  have htarget : before.names q ≠ some i := by
    intro hq
    rcases h.temporary i hi.1 with ht | hnext
    · rcases halone with hnone | hne
      · exact absurd (hnone.symm.trans ht) (by simp)
      · exact hne (ht.trans hq.symm)
    · exact absurd (before.names_lt q i hq) (Nat.not_lt.mpr hnext)
  have hmoves : ¬(now.names t = none ∨ now.names t = now.names q) := by
    rw [h.names q htq, hi.1]
    rintro (hnone | hsame)
    · exact absurd hnone (by simp)
    · exact htarget hsame.symm
  have hnames (p : P) : (now.rename t q).names p =
      if p = q then now.names t else if p = t then none else now.names p := if_neg hmoves
  refine ⟨fun p hpt hpq => ?_, h.files, ?_, i, ⟨?_, hi.2⟩, htarget⟩
  · rw [hnames, if_neg hpq, if_neg hpt, h.names p hpt]
  · rw [hnames, if_neg (Ne.symm htq), if_pos rfl]
  · rw [hnames, if_pos rfl, hi.1]

/-- A file is replaced by the operations on a temporary name and one rename: at
every moment the target is as it was, or leads to what the temporary name led to
behind the operations. -/
theorem run_replace {t q : P} {before : Fs P} {ops : List (Op P)} {i : Nat} {f : File}
    (hops : ∀ op ∈ ops, op.Stages t before) (hfile : (run before ops).Holds t i f) (htq : q ≠ t)
    (halone : before.names t = none ∨ before.names t ≠ before.names q) :
    (∀ k, Staged t before (run before ((ops ++ [Op.rename t q]).take k)) ∨
      Replaced t q f before (run before ((ops ++ [Op.rename t q]).take k))) ∧
    Replaced t q f before (run before (ops ++ [Op.rename t q])) := by
  have hdone : Replaced t q f before (run before (ops ++ [Op.rename t q])) := by
    rw [run_append]
    exact ((Staged.refl t before).run hops).rename htq hfile halone
  refine ⟨fun k => ?_, hdone⟩
  by_cases hk : k ≤ ops.length
  · rw [List.take_append_of_le_length hk]
    exact .inl ((Staged.refl t before).run fun op hop => hops op (List.mem_of_mem_take hop))
  · rw [List.take_of_length_le (by rw [List.length_append, List.length_singleton]; omega)]
    exact .inr hdone

end FileSystem
