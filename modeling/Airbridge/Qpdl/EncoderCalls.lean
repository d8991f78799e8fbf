import Airbridge.Qpdl.Stream

/-!
# The calls of the encoder

The five calls, accepted or rejected and in any order, over a sink that may
fail at any time.  Every call is made of writes and of updates that leave the
sink alone: `Advances` is what each call keeps that does not begin a job, and
`Emits` what the writes alone do.  The `_cases` lemmas say what each call can
leave behind.
-/

namespace Airbridge.Qpdl

/-- A call of the encoder.  `bits` is the memory a line points to. -/
inductive EncoderCall where
  | beginJob (job : QpdlJob) (sink : Sink)
  | beginPage (width : Nat) (workspace : Option Bytes)
  | writeLine (bits : Option (Nat → UInt8))
  | endPage
  | endJob

/-- The bytes that `m2022_qpdl_write_line` reads of a line. -/
def Encoder.lineBytes (e : Encoder) (bits : Nat → UInt8) : Bytes :=
  (List.range e.rowBytesUsed).map bits

/-- The encoder behind a call. -/
def Encoder.call (e : Encoder) : EncoderCall → Encoder
  | .beginJob job sink => (qpdlBeginJob e job sink).2
  | .beginPage width workspace => (qpdlBeginPage e width workspace).2
  | .writeLine bits => (qpdlWriteLine e (bits.map e.lineBytes)).2
  | .endPage => (qpdlEndPage e).2
  | .endJob => (qpdlEndJob e).2

/-! ## Writes -/

/-- `e'` comes behind `e` in a job: the sink gives the answers it gave, was
called as often or more, and the bytes it accepted were counted, modulo
`2 ^ 64`. -/
structure Advances (e e' : Encoder) : Prop where
  answer_eq : e'.sink.answer = e.sink.answer
  calls_le : e.sink.calls ≤ e'.sink.calls
  accepted_le : e.sink.accepted.length ≤ e'.sink.accepted.length
  bytes_mod : (e'.bytesOut + e.sink.accepted.length) % 2 ^ 64 =
    (e.bytesOut + e'.sink.accepted.length) % 2 ^ 64
  bytes_lt : e.bytesOut < 2 ^ 64 → e'.bytesOut < 2 ^ 64
  written_lt : e.bandsWritten < 2 ^ 32 → e'.bandsWritten < 2 ^ 32
  blank_lt : e.bandsBlank < 2 ^ 32 → e'.bandsBlank < 2 ^ 32

theorem Advances.refl (e : Encoder) : Advances e e :=
  ⟨rfl, Nat.le_refl _, Nat.le_refl _, rfl, id, id, id⟩

theorem Advances.trans {e e' e'' : Encoder} (h : Advances e e') (h' : Advances e' e'') :
    Advances e e'' := by
  have hbytes := h.bytes_mod
  have hbytes' := h'.bytes_mod
  exact ⟨h'.answer_eq.trans h.answer_eq, h.calls_le.trans h'.calls_le,
    h.accepted_le.trans h'.accepted_le, by omega, fun hlt => h'.bytes_lt (h.bytes_lt hlt),
    fun hlt => h'.written_lt (h.written_lt hlt), fun hlt => h'.blank_lt (h.blank_lt hlt)⟩

theorem Advances.accepts {e e' : Encoder} (h : Advances e e') (haccepts : e.sink.Accepts) :
    e'.sink.Accepts := by
  intro k
  rw [h.answer_eq]
  exact haccepts k

/-- An update that leaves the sink and the counters alone. -/
theorem Advances.of_eq {e e' : Encoder} (hsink : e'.sink = e.sink) (hbytes : e'.bytesOut = e.bytesOut)
    (hwritten : e'.bandsWritten = e.bandsWritten) (hblank : e'.bandsBlank = e.bandsBlank) :
    Advances e e' := by
  refine ⟨by rw [hsink], by rw [hsink], by rw [hsink], by rw [hsink, hbytes], ?_, ?_, ?_⟩
  · rw [hbytes]
    exact id
  · rw [hwritten]
    exact id
  · rw [hblank]
    exact id

theorem orReturn_advances {e : Encoder} {r : Int × Encoder} {next : Encoder → Int × Encoder}
    (h : Advances e r.2) (hnext : ∀ e', Advances e' (next e').2) :
    Advances e (orReturn r next).2 := by
  unfold orReturn
  split_ifs
  · exact h
  · exact h.trans (hnext r.2)

/-- `e'` is `e` behind some writes. -/
structure Emits (e e' : Encoder) : Prop extends Advances e e' where
  rest : e' = { e with sink := e'.sink, bytesOut := e'.bytesOut }

theorem Emits.refl (e : Encoder) : Emits e e := ⟨Advances.refl e, rfl⟩

theorem Emits.trans {e e' e'' : Encoder} (h : Emits e e') (h' : Emits e' e'') : Emits e e'' := by
  refine ⟨h.toAdvances.trans h'.toAdvances, ?_⟩
  have hrest := h'.rest
  rw [h.rest] at hrest
  exact hrest

theorem orReturn_emits {e : Encoder} {r : Int × Encoder} {next : Encoder → Int × Encoder}
    (h : Emits e r.2) (hnext : ∀ e', Emits e' (next e').2) : Emits e (orReturn r next).2 := by
  unfold orReturn
  split_ifs
  · exact h
  · exact h.trans (hnext r.2)

theorem emit_emits (e : Encoder) (data : Bytes) : Emits e (e.emit data).2 := by
  unfold Encoder.emit Sink.write
  dsimp only
  split_ifs
  · refine ⟨⟨rfl, Nat.le_succ _, ?_, ?_, fun _ => Nat.mod_lt _ (by decide), id, id⟩, rfl⟩
    · rw [List.length_append]
      exact Nat.le_add_right _ _
    · show (u64 (e.bytesOut + data.length) + e.sink.accepted.length) % 2 ^ 64 = _
      rw [List.length_append]
      unfold u64
      omega
  · exact ⟨⟨rfl, Nat.le_succ _, Nat.le_refl _, rfl, id, id, id⟩, rfl⟩

theorem emitf_emits (e : Encoder) (line : Bytes) : Emits e (e.emitf line).2 := by
  unfold Encoder.emitf
  split_ifs
  · exact Emits.refl e
  · exact emit_emits e line

theorem emitfSome_emits (e : Encoder) (s : Option Bytes) (line : Bytes → Bytes) :
    Emits e (e.emitfSome s line).2 := by
  cases s with
  | none => exact Emits.refl e
  | some s => exact emitf_emits e (line s)

theorem emitfIf_emits (e : Encoder) (c : Bool) (line : Bytes) : Emits e (e.emitfIf c line).2 := by
  cases c with
  | false => exact Emits.refl e
  | true => exact emitf_emits e line

/-! ## What each call does -/

/-- A job that passes its checks starts over, and writes. -/
theorem beginJob_emits (e : Encoder) {job : QpdlJob} (hjob : job.refused = false) (sink : Sink) :
    Emits { job := job, sink := sink, inJob := true } (qpdlBeginJob e job sink).2 := by
  rw [qpdlBeginJob, if_neg (by rw [hjob]; decide)]
  refine orReturn_emits (emit_emits _ _) fun e => ?_
  refine orReturn_emits (emitfSome_emits e _ _) fun e => ?_
  refine orReturn_emits (emitf_emits e _) fun e => ?_
  refine orReturn_emits (emitfSome_emits e _ _) fun e => ?_
  refine orReturn_emits (emitf_emits e _) fun e => ?_
  refine orReturn_emits (emitf_emits e _) fun e => ?_
  refine orReturn_emits (emitfIf_emits e _ _) fun e => ?_
  refine orReturn_emits (emitf_emits e _) fun e => ?_
  refine orReturn_emits (emitf_emits e _) fun e => ?_
  refine orReturn_emits (emitfIf_emits e _ _) fun e => ?_
  exact emitf_emits e _

/-- A page is rejected, or opened and its header written. -/
theorem beginPage_cases (e : Encoder) (width : Nat) (workspace : Option Bytes) :
    (qpdlBeginPage e width workspace).2 = e ∨
      ∃ memory, workspace = some memory ∧ e.inJob = true ∧ e.inPage = false ∧
        0 < width ∧ width ≤ 65280 ∧ qpdlEncoderWorkspaceBytes width ≤ memory.length ∧
        Emits (e.openPage width memory) (qpdlBeginPage e width workspace).2 := by
  unfold qpdlBeginPage
  split_ifs with hstate hrange
  · exact .inl rfl
  · exact .inl rfl
  · cases workspace with
    | none => exact .inl rfl
    | some memory =>
      dsimp only
      split_ifs with hroom
      · exact .inl rfl
      · rw [Bool.or_eq_true, Bool.not_eq_true', not_or, Bool.not_eq_false, Bool.not_eq_true] at hstate
        exact .inr ⟨memory, rfl, hstate.1, hstate.2, by omega, by omega, Nat.not_lt.mp hroom,
          emit_emits _ _⟩

/-- A page with enough memory opens inside a job. -/
theorem beginPage_opens {e : Encoder} (hinJob : e.inJob = true) (hpage : e.inPage = false)
    {width : Nat} (hpos : 0 < width) (hle : width ≤ 65280) {memory : Bytes}
    (hroom : qpdlEncoderWorkspaceBytes width ≤ memory.length) :
    Emits (e.openPage width memory) (qpdlBeginPage e width (some memory)).2 := by
  unfold qpdlBeginPage
  rw [hinJob, hpage, if_neg (by decide), if_neg (by omega)]
  dsimp only
  rw [if_neg (Nat.not_lt.mpr hroom)]
  exact emit_emits _ _

/-- The end of a job is rejected, or the job is closed and its end written. -/
theorem endJob_cases (e : Encoder) :
    (qpdlEndJob e).2 = e ∨ e.inPage = false ∧ Emits e.jobClosed (qpdlEndJob e).2 := by
  unfold qpdlEndJob
  split_ifs with hstate
  · exact .inl rfl
  · rw [Bool.or_eq_true, Bool.not_eq_true', not_or, Bool.not_eq_true] at hstate
    exact .inr ⟨hstate.2, orReturn_emits (emit_emits _ _) fun e => emit_emits e _⟩

theorem sendBand_advances (e : Encoder) (n : Nat) : Advances e (sendBand e n).2 := by
  unfold sendBand
  refine orReturn_advances (emit_emits e _).toAdvances fun e => ?_
  refine orReturn_advances (emit_emits e _).toAdvances fun e => ?_
  exact ⟨rfl, Nat.le_refl _, Nat.le_refl _, rfl, id, fun _ => Nat.mod_lt _ (by decide), id⟩

theorem flushBand_advances (e : Encoder) : Advances e (flushBand e).2 := by
  unfold flushBand
  dsimp only
  split_ifs
  · exact Advances.refl e
  · exact ⟨rfl, Nat.le_refl _, Nat.le_refl _, rfl, id, id, fun _ => Nat.mod_lt _ (by decide)⟩
  · exact Advances.of_eq rfl rfl rfl rfl
  · refine Advances.trans ?_ (sendBand_advances _ _)
    exact Advances.of_eq rfl rfl rfl rfl

theorem writeLine_advances (e : Encoder) (bits : Option Bytes) :
    Advances e (qpdlWriteLine e bits).2 := by
  unfold qpdlWriteLine
  split_ifs
  · exact Advances.refl e
  · cases bits with
    | none => exact Advances.refl e
    | some bits =>
      have hbuffer : Advances e (e.bufferLine bits) := Advances.of_eq rfl rfl rfl rfl
      dsimp only
      split_ifs
      · exact hbuffer.trans (flushBand_advances _)
      · exact hbuffer

/-- The end of a page is rejected, or fails to flush and leaves the page open, or
closes it and writes its end. -/
theorem endPage_cases (e : Encoder) :
    (e.inPage = false ∧ (qpdlEndPage e).2 = e) ∨
      (e.inPage = true ∧ e.lines % 128 ≠ 0 ∧ (flushBand e).1 ≠ 0 ∧
        (qpdlEndPage e).2 = (flushBand e).2) ∨
      (e.inPage = true ∧ e.lines % 128 ≠ 0 ∧ (flushBand e).1 = 0 ∧
        Emits (flushBand e).2.pageClosed (qpdlEndPage e).2) ∨
      (e.inPage = true ∧ e.lines % 128 = 0 ∧ Emits e.pageClosed (qpdlEndPage e).2) := by
  unfold qpdlEndPage
  cases hpage : e.inPage with
  | false => exact .inl ⟨rfl, rfl⟩
  | true =>
    simp only [Bool.not_true, Bool.false_eq_true, if_false, reduceCtorEq, false_and, true_and,
      false_or]
    by_cases hlines : e.lines % 128 = 0
    · rw [if_neg (not_not.mpr hlines)]
      exact .inr (.inr ⟨hlines, emit_emits _ _⟩)
    · rw [if_pos hlines]
      by_cases hflush : (flushBand e).1 = 0
      · refine .inr (.inl ⟨hlines, hflush, ?_⟩)
        rw [orReturn, if_neg (not_not.mpr hflush)]
        exact emit_emits _ _
      · refine .inl ⟨hlines, hflush, ?_⟩
        rw [orReturn, if_pos hflush]

theorem endPage_advances (e : Encoder) : Advances e (qpdlEndPage e).2 := by
  have hclosed (e : Encoder) : Advances e e.pageClosed := Advances.of_eq rfl rfl rfl rfl
  rcases endPage_cases e with ⟨-, h⟩ | ⟨-, -, -, h⟩ | ⟨-, -, -, h⟩ | ⟨-, -, h⟩
  · rw [h]
    exact Advances.refl e
  · rw [h]
    exact flushBand_advances e
  · exact ((flushBand_advances e).trans (hclosed _)).trans h.toAdvances
  · exact (hclosed e).trans h.toAdvances

/-- The end of a page leaves the job as it was. -/
theorem endPage_inJob (e : Encoder) : (qpdlEndPage e).2.inJob = e.inJob := by
  rcases endPage_cases e with ⟨-, heq⟩ | ⟨-, -, -, heq⟩ | ⟨-, -, -, hemits⟩ | ⟨-, -, hemits⟩
  · rw [heq]
  · rw [heq]
    exact (flushBand_kept e).inJob_eq
  · rw [hemits.rest]
    exact (flushBand_kept e).inJob_eq
  · rw [hemits.rest]
    rfl

/-- A page that is still open behind its end was open. -/
theorem endPage_open {e : Encoder} (h : (qpdlEndPage e).2.inPage = true) : e.inPage = true := by
  cases hpage : e.inPage with
  | true => rfl
  | false =>
    rcases endPage_cases e with ⟨-, heq⟩ | ⟨hopen, -⟩ | ⟨hopen, -⟩ | ⟨hopen, -⟩
    · rw [heq, hpage] at h
      exact h
    all_goals exact hpage.symm.trans hopen

theorem endPage_idle_eq {e : Encoder} (h : e.inPage = false) : (qpdlEndPage e).2 = e := by
  rw [qpdlEndPage, h]
  rfl

end Airbridge.Qpdl
