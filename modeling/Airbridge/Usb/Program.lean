import Airbridge.Lib.Run
import Airbridge.Usb.Open

/-!
# Programs that use several printers

A program calls `m2022_usb_list`, `m2022_usb_open` and `m2022_usb_close` in any
order: it may list, or open one printer, while others are open, and close them
in another order than it opened them.  Every call has a context, a device list
and handles of its own, so what it holds is held under its number.

`actions_lead`: behind any calls just the open printers hold something, and
nothing was released twice or while it was not held.
-/

namespace Airbridge.Usb

open Resources

/-- The calls of `m2022_usb_list`. -/
def usbListCalls (usb : Libusb) (max : Nat) : Calls :=
  if usb.init ≠ 0 then []
  else .acquire .context :: ((match usb.deviceList with
    | .error _ => []
    | .ok list => (walk none max false list).calls) ++ [.release .context])

theorem usbListCalls_lead (usb : Libusb) (max : Nat) : Leads ∅ (usbListCalls usb max) ∅ := by
  unfold usbListCalls
  split_ifs with hinit
  · exact .nil ∅
  refine Leads.bracket (by simp) (by simp) ?_
  cases usb.deviceList with
  | error rc => exact .nil _
  | ok list =>
    obtain ⟨hwalk, hnone⟩ := walk_leads none max false
      (show Resource.config ∉ insert Resource.context ∅ by simp) (by simp) (by simp) list
    rw [hnone rfl] at hwalk
    exact hwalk

/-! ## The program -/

/-- A call of the program, with what it is answered.  A printer is closed by its
place among those that are open. -/
inductive UsbAction where
  | usbList (usb : Libusb) (max : Nat)
  | usbOpen (host : UsbHost) (m : UsbMatch)
  | usbClose (i : Nat)

/-- The number of the next call, the open printers with the calls that opened
them, and what was acquired and released so far, and by which call. -/
structure Program where
  next : Nat := 0
  opened : List (Nat × OpenDevice) := []
  calls : List (Use (Nat × Resource)) := []
deriving Repr, DecidableEq

/-- One call; there is nothing to close where no printer is open. -/
def Program.step (p : Program) : UsbAction → Program
  | .usbList usb max =>
    { p with
      next := p.next + 1
      calls := p.calls ++ (usbListCalls usb max).map (Use.tag p.next) }
  | .usbOpen host m =>
    let r := usbOpen host m
    { next := p.next + 1
      opened := p.opened ++ (r.dev.map (Prod.mk p.next)).toList
      calls := p.calls ++ r.calls.map (Use.tag p.next) }
  | .usbClose i =>
    match p.opened[i]? with
    | none => p
    | some q =>
      { p with
        opened := p.opened.eraseIdx i
        calls := p.calls ++ (usbClose q.2).map (Use.tag q.1) }

/-- What the open printers hold. -/
def heldBy : List (Nat × OpenDevice) → Finset (Nat × Resource)
  | [] => ∅
  | q :: qs => heldBy qs ∪ tagged q.1 (heldDevice (some q.2))

theorem mem_heldBy {qs : List (Nat × OpenDevice)} {x : Nat × Resource} :
    x ∈ heldBy qs ↔ ∃ q ∈ qs, x.1 = q.1 ∧ x.2 ∈ heldDevice (some q.2) := by
  induction qs with
  | nil => simp [heldBy]
  | cons q qs ih =>
    rw [heldBy, Finset.mem_union, ih, mem_tagged, List.exists_mem_cons_iff]
    exact or_comm

theorem heldBy_concat (qs : List (Nat × OpenDevice)) (q : Nat × OpenDevice) :
    heldBy (qs ++ [q]) = heldBy qs ∪ tagged q.1 (heldDevice (some q.2)) := by
  ext x
  rw [Finset.mem_union, mem_tagged, mem_heldBy, mem_heldBy]
  simp [or_and_right, exists_or]

/-- The open printers without one of them. -/
theorem heldBy_eraseIdx {qs : List (Nat × OpenDevice)} {i : Nat} {q : Nat × OpenDevice}
    (h : qs[i]? = some q) :
    heldBy qs = heldBy (qs.eraseIdx i) ∪ tagged q.1 (heldDevice (some q.2)) := by
  induction qs generalizing i with
  | nil => exact absurd h (by simp)
  | cons q' qs ih =>
    cases i with
    | zero =>
      obtain rfl : q' = q := Option.some_inj.mp h
      rfl
    | succ i =>
      rw [List.getElem?_cons_succ] at h
      rw [List.eraseIdx_cons_succ, heldBy, heldBy, ih h, Finset.union_right_comm]

/-- Just the open printers hold something, each under the number of a call of
its own. -/
structure Program.Orderly (p : Program) : Prop where
  leads : Leads ∅ p.calls (heldBy p.opened)
  lt : ∀ q ∈ p.opened, q.1 < p.next
  nodup : (p.opened.map Prod.fst).Nodup

/-- The next call holds nothing yet. -/
theorem Program.Orderly.fresh {p : Program} (h : p.Orderly) (r : Resource) :
    (p.next, r) ∉ heldBy p.opened := by
  rw [mem_heldBy]
  rintro ⟨q, hq, heq, -⟩
  exact absurd (h.lt q hq) (by rw [← heq]; exact Nat.lt_irrefl _)

theorem Program.Orderly.usbList {p : Program} (h : p.Orderly) (usb : Libusb) (max : Nat) :
    (p.step (.usbList usb max)).Orderly := by
  refine ⟨h.leads.append ?_, fun q hq => Nat.lt_succ_of_lt (h.lt q hq), h.nodup⟩
  have hcall := (usbListCalls_lead usb max).tag h.fresh
  rw [tagged_empty, Finset.union_empty] at hcall
  exact hcall

theorem Program.Orderly.usbOpen {p : Program} (h : p.Orderly) (host : UsbHost) (m : UsbMatch) :
    (p.step (.usbOpen host m)).Orderly := by
  have hcall := (usbOpen_leads host m).tag h.fresh
  rw [tagged_empty, Finset.union_empty] at hcall
  cases hdev : (Usb.usbOpen host m).dev with
  | none =>
    have hopened : (p.step (.usbOpen host m)).opened = p.opened := by
      simp [Program.step, hdev]
    refine ⟨h.leads.append ?_, fun q hq => ?_, ?_⟩
    · rw [hdev, heldDevice, tagged_empty, Finset.union_empty] at hcall
      rw [hopened]
      exact hcall
    · rw [hopened] at hq
      exact Nat.lt_succ_of_lt (h.lt q hq)
    · rw [hopened]
      exact h.nodup
  | some d =>
    have hopened : (p.step (.usbOpen host m)).opened = p.opened ++ [(p.next, d)] := by
      simp [Program.step, hdev]
    refine ⟨h.leads.append ?_, fun q hq => ?_, ?_⟩
    · rw [hdev] at hcall
      rw [hopened, heldBy_concat]
      exact hcall
    · rw [hopened] at hq
      rcases List.mem_append.mp hq with hq | hq
      · exact Nat.lt_succ_of_lt (h.lt q hq)
      · rw [List.mem_singleton.mp hq]
        exact Nat.lt_succ_self p.next
    · rw [hopened, List.map_append]
      refine List.Nodup.append h.nodup (List.nodup_singleton _) ?_
      intro k hk hnext
      obtain ⟨q, hq, rfl⟩ := List.mem_map.mp hk
      exact absurd (List.mem_singleton.mp hnext) (Nat.ne_of_lt (h.lt q hq))

theorem Program.Orderly.usbClose {p : Program} (h : p.Orderly) (i : Nat) :
    (p.step (.usbClose i)).Orderly := by
  cases hq : p.opened[i]? with
  | none =>
    have hsame : p.step (.usbClose i) = p := by simp only [Program.step, hq]
    rw [hsame]
    exact h
  | some q =>
    simp only [Program.step, hq]
    have hsub : (p.opened.eraseIdx i).Sublist p.opened := List.eraseIdx_sublist _ _
    refine ⟨h.leads.append ?_, fun q' hq' => h.lt q' (hsub.subset hq'),
      h.nodup.sublist (hsub.map Prod.fst)⟩
    -- the printers that stay open were opened by other calls
    have hother : ∀ r, (q.1, r) ∉ heldBy (p.opened.eraseIdx i) := by
      intro r hr
      obtain ⟨q', hq', heq, -⟩ := mem_heldBy.mp hr
      obtain ⟨hlt, hi⟩ := List.getElem?_eq_some_iff.mp hq
      have hperm := (List.getElem_cons_eraseIdx_perm hlt).map Prod.fst
      have hnodup := hperm.nodup_iff.mpr h.nodup
      rw [List.map_cons, List.nodup_cons, hi] at hnodup
      exact hnodup.1 (List.mem_map.mpr ⟨q', hq', heq.symm⟩)
    have hcall := (usbClose_leads q.2).tag hother
    rw [← heldBy_eraseIdx hq, tagged_empty, Finset.union_empty] at hcall
    exact hcall

theorem Program.Orderly.step {p : Program} (h : p.Orderly) (a : UsbAction) : (p.step a).Orderly := by
  cases a with
  | usbList usb max => exact h.usbList usb max
  | usbOpen host m => exact h.usbOpen host m
  | usbClose i => exact h.usbClose i

/-- Whatever a program lists, opens and closes, in any order, and whatever libusb
and the allocator answer, each thing is acquired and released under the number
of its call, released once and only while it is held, and just the printers
that are open hold something; behind the closing of the last one nothing is
held. -/
theorem actions_lead (actions : List UsbAction) :
    let p := Run.run Program.step {} actions
    Leads ∅ p.calls (heldBy p.opened) ∧ (p.opened = [] → Leads ∅ p.calls ∅) := by
  intro p
  have hstart : Program.Orderly {} :=
    ⟨.nil ∅, fun q hq => absurd hq List.not_mem_nil, List.nodup_nil⟩
  have h : p.Orderly := Run.run_invariant (fun _ a h => h.step a) hstart actions
  refine ⟨h.leads, fun hnone => ?_⟩
  have hleads := h.leads
  rwa [hnone] at hleads

end Airbridge.Usb
