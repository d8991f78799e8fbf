import Mathlib.Data.Finset.Basic
import Mathlib.Data.Finset.Image

/-!
# Resources that are acquired and released

A program is seen as the list of its calls that acquire a resource or release
one.  Acquiring what is held already and releasing what is not held are errors,
and `Leads` says that a list of calls has no error and which resources are held
behind it.  A program that releases everything leads from nothing to nothing.
Where several parties take turns, each with resources of its own, what one of
them does leaves alone what the others hold (`Leads.tag`).
-/

namespace Resources

variable {ρ : Type*} [DecidableEq ρ]

inductive Use (ρ : Type*) where
  | acquire (r : ρ)
  | release (r : ρ)
deriving Repr, DecidableEq

/-- What is held behind one call, unless the call is an error. -/
def use (held : Finset ρ) : Use ρ → Option (Finset ρ)
  | .acquire r => if r ∈ held then none else some (insert r held)
  | .release r => if r ∈ held then some (held.erase r) else none

/-- The calls are without an error, and lead from `held` to `held'`. -/
def Leads (held : Finset ρ) (uses : List (Use ρ)) (held' : Finset ρ) : Prop :=
  uses.foldlM use held = some held'

instance (held held' : Finset ρ) (uses : List (Use ρ)) : Decidable (Leads held uses held') :=
  inferInstanceAs (Decidable (_ = _))

theorem Leads.nil (held : Finset ρ) : Leads held [] held := rfl

theorem Leads.acquire {held held' : Finset ρ} {r : ρ} {uses : List (Use ρ)} (hr : r ∉ held)
    (h : Leads (insert r held) uses held') : Leads held (.acquire r :: uses) held' := by
  unfold Leads at h ⊢
  rw [List.foldlM_cons, use, if_neg hr]
  exact h

theorem Leads.release {held held' : Finset ρ} {r : ρ} {uses : List (Use ρ)} (hr : r ∈ held)
    (h : Leads (held.erase r) uses held') : Leads held (.release r :: uses) held' := by
  unfold Leads at h ⊢
  rw [List.foldlM_cons, use, if_pos hr]
  exact h

theorem Leads.append {held held' held'' : Finset ρ} {uses uses' : List (Use ρ)}
    (h : Leads held uses held') (h' : Leads held' uses' held'') :
    Leads held (uses ++ uses') held'' := by
  unfold Leads at h h' ⊢
  rw [List.foldlM_append, h]
  exact h'

/-- A resource that is acquired in front of the calls and released behind them. -/
theorem Leads.bracket {held : Finset ρ} {r : ρ} {uses : List (Use ρ)} (hr : r ∉ held)
    {held' : Finset ρ} (hr' : r ∉ held') (h : Leads (insert r held) uses (insert r held')) :
    Leads held (.acquire r :: (uses ++ [.release r])) held' := by
  refine .acquire hr (h.append (.release (Finset.mem_insert_self r held') ?_))
  rw [Finset.erase_insert hr']
  exact .nil held'

/-! ## Several parties -/

/-- A use by party `k`, whose resources are its own. -/
def Use.tag {κ ρ : Type*} (k : κ) : Use ρ → Use (κ × ρ)
  | .acquire r => .acquire (k, r)
  | .release r => .release (k, r)

/-- What is held, with the party that holds it. -/
def tagged {κ ρ : Type*} (k : κ) (held : Finset ρ) : Finset (κ × ρ) :=
  held.map ⟨Prod.mk k, Prod.mk_right_injective k⟩

@[simp] theorem mem_tagged {κ ρ : Type*} {k : κ} {held : Finset ρ} {x : κ × ρ} :
    x ∈ tagged k held ↔ x.1 = k ∧ x.2 ∈ held := by
  obtain ⟨j, r⟩ := x
  simp only [tagged, Finset.mem_map, Function.Embedding.coeFn_mk, Prod.mk.injEq]
  constructor
  · rintro ⟨r', hr', rfl, rfl⟩
    exact ⟨rfl, hr'⟩
  · rintro ⟨rfl, hr⟩
    exact ⟨r, hr, rfl, rfl⟩

@[simp] theorem tagged_empty {κ ρ : Type*} (k : κ) : tagged k (∅ : Finset ρ) = ∅ := rfl

theorem leads_cons {held held' : Finset ρ} {u : Use ρ} {uses : List (Use ρ)} :
    Leads held (u :: uses) held' ↔ ∃ mid, use held u = some mid ∧ Leads mid uses held' := by
  unfold Leads
  rw [List.foldlM_cons]
  exact Option.bind_eq_some_iff

section
variable {κ : Type*} [DecidableEq κ] {k : κ} {base : Finset (κ × ρ)} (hbase : ∀ r, (k, r) ∉ base)
include hbase

theorem use_tag {held mid : Finset ρ} {u : Use ρ} (h : use held u = some mid) :
    use (base ∪ tagged k held) (u.tag k) = some (base ∪ tagged k mid) := by
  cases u with
  | acquire r =>
    rw [use] at h
    split_ifs at h with hr
    have hfresh : (k, r) ∉ base ∪ tagged k held := by simp [hbase, hr]
    rw [Use.tag, use, if_neg hfresh, ← Option.some_inj.mp h, Option.some_inj]
    ext x
    simp only [Finset.mem_insert, Finset.mem_union, mem_tagged, Prod.ext_iff]
    tauto
  | release r =>
    rw [use] at h
    split_ifs at h with hr
    have hheld : (k, r) ∈ base ∪ tagged k held := by simp [hr]
    rw [Use.tag, use, if_pos hheld, ← Option.some_inj.mp h, Option.some_inj]
    ext x
    have hother : x ∈ base → x ≠ (k, r) := fun hx heq => hbase r (heq ▸ hx)
    simp only [Finset.mem_erase, Finset.mem_union, mem_tagged, ne_eq, Prod.ext_iff] at hother ⊢
    tauto

/-- What one party does leaves alone what the others hold. -/
theorem Leads.tag {held held' : Finset ρ} {uses : List (Use ρ)} (h : Leads held uses held') :
    Leads (base ∪ tagged k held) (uses.map (Use.tag k)) (base ∪ tagged k held') := by
  induction uses generalizing held with
  | nil =>
    obtain rfl : held = held' := Option.some_inj.mp h
    exact .nil _
  | cons u uses ih =>
    obtain ⟨mid, hu, hrest⟩ := leads_cons.mp h
    exact leads_cons.mpr ⟨_, use_tag hbase hu, ih hrest⟩

end

end Resources
