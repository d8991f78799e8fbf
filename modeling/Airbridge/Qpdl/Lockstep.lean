import Airbridge.Qpdl.EncoderCalls

/-!
# The encoder over two sinks

The encoder learns about the sink from its answers only.  Two encoders in the
same state, over sinks that agree on the first answers, make the same calls of
their sinks up to the one behind these answers.

`Writes` says that a call of the encoder touches the sink by writes only, and
`Twin` relates the two encoders: they are in step (`InStep`), or the sinks have
disagreed behind the first answers (`Apart`).
-/

namespace Airbridge.Qpdl

/-! ## Writes -/

/-- The sink behind these writes. -/
def Sink.writeAll (s : Sink) (ds : List Bytes) : Sink := ds.foldl (fun s data => (s.write data).2) s

theorem Sink.writeAll_append (s : Sink) (ds ds' : List Bytes) :
    s.writeAll (ds ++ ds') = (s.writeAll ds).writeAll ds' :=
  List.foldl_append

theorem Sink.offered_writeAll (s : Sink) (ds : List Bytes) :
    (s.writeAll ds).offered = s.offered ++ ds := by
  induction ds generalizing s with
  | nil => exact (List.append_nil _).symm
  | cons data ds ih =>
    show ((s.write data).2.writeAll ds).offered = _
    rw [ih]
    exact List.append_assoc s.offered [data] ds

/-- Between two sinks there are writes only. -/
def Sink.WritesTo (s s' : Sink) : Prop := ∃ ds, s' = s.writeAll ds

theorem Sink.WritesTo.refl (s : Sink) : s.WritesTo s := ⟨[], rfl⟩

theorem Sink.WritesTo.trans {s s' s'' : Sink} (h : s.WritesTo s') (h' : s'.WritesTo s'') :
    s.WritesTo s'' := by
  obtain ⟨ds, rfl⟩ := h
  obtain ⟨ds', rfl⟩ := h'
  exact ⟨ds ++ ds', (s.writeAll_append ds ds').symm⟩

/-- A step of the encoder that touches the sink by writes only. -/
def Writes (e e' : Encoder) : Prop := e.sink.WritesTo e'.sink

theorem Writes.refl (e : Encoder) : Writes e e := Sink.WritesTo.refl _

theorem Writes.of_eq {e e' : Encoder} (h : e'.sink = e.sink) : Writes e e' := ⟨[], h⟩

theorem Writes.trans {e e' e'' : Encoder} (h : Writes e e') (h' : Writes e' e'') : Writes e e'' :=
  Sink.WritesTo.trans h h'

/-! ## Two encoders -/

/-- The sinks have been offered the same data so far, and agree on the first
`n` answers. -/
structure SameCalls (n : Nat) (s t : Sink) : Prop where
  offered_eq : s.offered = t.offered
  calls_left : s.calls = s.offered.length
  calls_right : t.calls = t.offered.length
  agree : ∀ i < n, s.answer i = t.answer i

/-- The encoders are in the same state but for their sinks. -/
structure InStep (n : Nat) (e f : Encoder) : Prop where
  rest : e = { f with sink := e.sink }
  same : SameCalls n e.sink f.sink

/-- The sinks were offered the same data up to call `n`. -/
def Apart (n : Nat) (e f : Encoder) : Prop :=
  n < e.sink.offered.length ∧ n < f.sink.offered.length ∧
    e.sink.offered.take (n + 1) = f.sink.offered.take (n + 1)

/-- A call on either side: both come to the same code and stay in step, or they
have come apart. -/
def Twin (n : Nat) (r s : Int × Encoder) : Prop :=
  r.1 = s.1 ∧ InStep n r.2 s.2 ∨ Apart n r.2 s.2

theorem Apart.writes {n : Nat} {e e' f f' : Encoder} (h : Apart n e f) (he : Writes e e')
    (hf : Writes f f') : Apart n e' f' := by
  obtain ⟨ds, hds⟩ := he
  obtain ⟨ds', hds'⟩ := hf
  obtain ⟨hle, hlf, heq⟩ := h
  unfold Apart
  rw [hds, hds', Sink.offered_writeAll, Sink.offered_writeAll, List.length_append,
    List.length_append, List.take_append_of_le_length (by omega),
    List.take_append_of_le_length (by omega)]
  exact ⟨by omega, by omega, heq⟩

/-- A function of the encoder that learns about the sink from its answers only. -/
structure Faithful (n : Nat) (call : Encoder → Int × Encoder) : Prop where
  twin {e f : Encoder} : InStep n e f → Twin n (call e) (call f)
  writes (e : Encoder) : Writes e (call e).2

theorem emit_twin {n : Nat} {e f : Encoder} (h : InStep n e f) (data : Bytes) :
    Twin n (e.emit data) (f.emit data) := by
  obtain ⟨hrest, hoffered, hcalls, hcalls', hagree⟩ := h
  generalize hs : e.sink = s at *
  subst hrest
  by_cases hanswer : s.answer s.calls = f.sink.answer f.sink.calls
  · refine .inl ⟨hanswer, ?_, ?_, ?_, ?_, hagree⟩
    · unfold Encoder.emit Sink.write
      dsimp only
      rw [hanswer]
    · exact congrArg (· ++ [data]) hoffered
    · show s.calls + 1 = (s.offered ++ [data]).length
      rw [List.length_append, hcalls]
      rfl
    · show f.sink.calls + 1 = (f.sink.offered ++ [data]).length
      rw [List.length_append, hcalls']
      rfl
  · have hcall : s.calls = f.sink.calls := by rw [hcalls, hcalls', hoffered]
    have hn : n ≤ s.calls := by
      by_contra hlt
      rw [← hcall] at hanswer
      exact hanswer (hagree _ (by omega))
    refine .inr ⟨?_, ?_, ?_⟩
    · show n < (s.offered ++ [data]).length
      rw [List.length_append, List.length_singleton]
      omega
    · show n < (f.sink.offered ++ [data]).length
      rw [List.length_append, List.length_singleton]
      omega
    · show (s.offered ++ [data]).take (n + 1) = (f.sink.offered ++ [data]).take (n + 1)
      rw [hoffered]

/-- The same code on both sides. -/
theorem InStep.twin {n : Nat} {e f : Encoder} (h : InStep n e f) (rc : Int) :
    Twin n (rc, e) (rc, f) :=
  .inl ⟨rfl, h⟩

/-- An update that neither looks at the sink nor changes it. -/
def Blind (g : Encoder → Encoder) : Prop :=
  ∀ (e : Encoder) (s : Sink), g { e with sink := s } = { g e with sink := s }

theorem Blind.sink_eq {g : Encoder → Encoder} (h : Blind g) (e : Encoder) :
    (g e).sink = e.sink := by
  have hsink := congrArg Encoder.sink (h e e.sink)
  exact hsink

theorem InStep.update {n : Nat} {e f : Encoder} (h : InStep n e f) {g : Encoder → Encoder}
    (hg : Blind g) : InStep n (g e) (g f) := by
  constructor
  · rw [hg.sink_eq, ← hg, ← h.rest]
  · rw [hg.sink_eq, hg.sink_eq]
    exact h.same

/-! ## Combining -/

variable {n : Nat}

theorem Faithful.const (rc : Int) : Faithful n fun e => (rc, e) :=
  ⟨fun h => h.twin rc, Writes.refl⟩

theorem Faithful.orReturn {first next : Encoder → Int × Encoder} (h : Faithful n first)
    (h' : Faithful n next) : Faithful n fun e => orReturn (first e) next := by
  have hwrites (e : Encoder) : Writes e (Qpdl.orReturn (first e) next).2 := by
    unfold Qpdl.orReturn
    split_ifs
    · exact h.writes e
    · exact (h.writes e).trans (h'.writes _)
  refine ⟨fun {e f} hin => ?_, hwrites⟩
  rcases h.twin hin with ⟨hcode, hin'⟩ | hapart
  · unfold Qpdl.orReturn
    rw [hcode]
    split_ifs
    · exact .inl ⟨hcode, hin'⟩
    · exact h'.twin hin'
  · have hnext (r : Int × Encoder) : Writes r.2 (Qpdl.orReturn r next).2 := by
      unfold Qpdl.orReturn
      split_ifs
      · exact Writes.refl _
      · exact h'.writes _
    exact .inr (hapart.writes (hnext _) (hnext _))

/-- A faithful call behind a blind update, with an argument that depends on the
rest of the state. -/
theorem Faithful.update {α : Type} {v : Encoder → α} {c : α → Encoder → Int × Encoder}
    {g : Encoder → Encoder} (h : ∀ a, Faithful n (c a)) (hg : Blind g)
    (hv : ∀ (e : Encoder) (s : Sink), v { e with sink := s } = v e) :
    Faithful n fun e => c (v e) (g e) := by
  refine ⟨fun {e f} hin => ?_, fun e => ?_⟩
  · have heq : v e = v f := by
      rw [hin.rest]
      exact hv f e.sink
    rw [heq]
    exact (h (v f)).twin (hin.update hg)
  · exact Writes.trans (Writes.of_eq (hg.sink_eq e)) ((h (v e)).writes (g e))

theorem Faithful.ite {c : Encoder → Prop} [DecidablePred c] {call call' : Encoder → Int × Encoder}
    (h : Faithful n call) (h' : Faithful n call')
    (hc : ∀ (e : Encoder) (s : Sink), c { e with sink := s } = c e) :
    Faithful n fun e => if c e then call e else call' e := by
  refine ⟨fun {e f} hin => ?_, fun e => ?_⟩
  · have hiff : c e ↔ c f := by
      rw [hin.rest, hc]
    by_cases hf : c f
    · rw [if_pos hf, if_pos (hiff.mpr hf)]
      exact h.twin hin
    · rw [if_neg hf, if_neg (fun he => hf (hiff.mp he))]
      exact h'.twin hin
  · split_ifs
    · exact h.writes e
    · exact h'.writes e

theorem emit_faithful (data : Bytes) : Faithful n fun e => e.emit data :=
  ⟨fun h => emit_twin h data, fun _ => ⟨[data], rfl⟩⟩

theorem emitf_faithful (line : Bytes) : Faithful n fun e => e.emitf line := by
  unfold Encoder.emitf
  split_ifs
  · exact Faithful.const EINVAL
  · exact emit_faithful line

theorem emitfSome_faithful (s : Option Bytes) (line : Bytes → Bytes) :
    Faithful n fun e => e.emitfSome s line := by
  cases s with
  | none => exact Faithful.const OK
  | some s => exact emitf_faithful (line s)

theorem emitfIf_faithful (c : Bool) (line : Bytes) : Faithful n fun e => e.emitfIf c line := by
  cases c with
  | false => exact Faithful.const OK
  | true => exact emitf_faithful line

/-! ## The calls -/

/-- A job that passes its checks is a faithful call in a fresh encoder. -/
theorem beginJob_faithful (job : QpdlJob) :
    ∃ c, (∀ n, Faithful n c) ∧ ∀ (e : Encoder) (s : Sink), qpdlBeginJob e job s =
      if job.refused then (EINVAL, e) else c { job := job, sink := s, inJob := true } := by
  refine ⟨fun e => Qpdl.orReturn (e.emit uel) _, ?_, fun e s => by unfold qpdlBeginJob; exact rfl⟩
  intro n
  refine Faithful.orReturn (emit_faithful uel) ?_
  refine (emitfSome_faithful _ _).orReturn ?_
  refine (emitf_faithful _).orReturn ?_
  refine (emitfSome_faithful _ _).orReturn ?_
  refine (emitf_faithful _).orReturn ?_
  refine (emitf_faithful _).orReturn ?_
  refine (emitfIf_faithful _ _).orReturn ?_
  refine (emitf_faithful _).orReturn ?_
  refine (emitf_faithful _).orReturn ?_
  refine (emitfIf_faithful _ _).orReturn ?_
  exact emitf_faithful _

theorem beginPage_faithful (width : Nat) (workspace : Option Bytes) :
    Faithful n fun e => qpdlBeginPage e width workspace := by
  unfold qpdlBeginPage
  refine Faithful.ite (Faithful.const ESTATE) ?_ fun _ _ => rfl
  split_ifs
  · exact Faithful.const ERANGE
  cases workspace with
  | none => exact Faithful.const EINVAL
  | some memory =>
    dsimp only
    split_ifs
    · exact Faithful.const EINVAL
    · exact Faithful.update emit_faithful (g := fun e => e.openPage width memory) (fun _ _ => rfl)
        fun _ _ => rfl

/-- A write of data that does not depend on the sink. -/
theorem emitOf_faithful {v : Encoder → Bytes}
    (hv : ∀ (e : Encoder) (s : Sink), v { e with sink := s } = v e) :
    Faithful n fun e => e.emit (v e) :=
  Faithful.update (c := fun data e => e.emit data) (g := id) emit_faithful (fun _ _ => rfl) hv

theorem sendBand_faithful (len : Nat) : Faithful n fun e => sendBand e len := by
  unfold sendBand
  refine Faithful.orReturn (emitOf_faithful fun _ _ => rfl) ?_
  refine Faithful.orReturn (emitOf_faithful fun _ _ => rfl) ?_
  exact Faithful.update Faithful.const (fun _ _ => rfl) fun _ _ => rfl

theorem flushBand_faithful : Faithful n flushBand := by
  unfold flushBand
  refine Faithful.ite (Faithful.const ERANGE) ?_ fun _ _ => rfl
  refine Faithful.ite ?_ ?_ fun _ _ => rfl
  · exact Faithful.update Faithful.const (fun _ _ => rfl) fun _ _ => rfl
  · refine Faithful.ite ?_ ?_ fun _ _ => rfl
    · exact Faithful.update Faithful.const (fun _ _ => rfl) fun _ _ => rfl
    · exact Faithful.update sendBand_faithful (fun _ _ => rfl) fun _ _ => rfl

theorem writeLine_faithful (bits : Option Bytes) : Faithful n fun e => qpdlWriteLine e bits := by
  unfold qpdlWriteLine
  refine Faithful.ite (Faithful.const ESTATE) ?_ fun _ _ => rfl
  cases bits with
  | none => exact Faithful.const EINVAL
  | some bits =>
    have hline : Faithful n fun e => if e.lines % 128 = 0 then flushBand e else (OK, e) :=
      Faithful.ite flushBand_faithful (Faithful.const OK) fun _ _ => rfl
    exact Faithful.update (v := fun _ => ()) (fun _ => hline) (g := fun e => e.bufferLine bits)
      (fun _ _ => rfl) fun _ _ => rfl

theorem closePage_faithful : Faithful n closePage :=
  Faithful.update emit_faithful (g := Encoder.pageClosed) (fun _ _ => rfl) fun _ _ => rfl

theorem endPage_faithful : Faithful n qpdlEndPage := by
  unfold qpdlEndPage
  refine Faithful.ite (Faithful.const ESTATE) ?_ fun _ _ => rfl
  exact Faithful.ite (flushBand_faithful.orReturn closePage_faithful) closePage_faithful
    fun _ _ => rfl

theorem endJob_faithful : Faithful n qpdlEndJob := by
  unfold qpdlEndJob
  refine Faithful.ite (Faithful.const ESTATE) ?_ fun _ _ => rfl
  refine Faithful.orReturn ?_ (emit_faithful uel)
  exact Faithful.update emit_faithful (g := Encoder.jobClosed) (fun _ _ => rfl) fun _ _ => rfl

end Airbridge.Qpdl
