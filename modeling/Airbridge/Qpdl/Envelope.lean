import Airbridge.Qpdl.Stream

/-!
# The PJL envelope

`m2022_qpdl_begin_job` writes the lines of `pjlLines`, and the walker reads
them back.  The two sides disagree about one thing: the writer accepts every
printable text for the paper type and the producer, while the reader ends the
envelope at the first line that contains `ENTER LANGUAGE`, anywhere in it.
-/

namespace Airbridge.Qpdl

/-! ## Accepted jobs -/

/-- Printable text of 1 to `max` characters. -/
structure Plain (s : Bytes) (max : Nat) : Prop where
  pos : 0 < s.length
  le : s.length ≤ max
  printable : ∀ c ∈ s, 0x20 ≤ c ∧ c ≤ 0x7e

theorem plain_of_plainText {s : Bytes} {max : Nat} (h : plainText s max = true) : Plain s max := by
  rw [plainText] at h
  split_ifs at h with hn
  have hle : s.length ≤ max := by omega
  refine ⟨by omega, hle, fun c hc => ?_⟩
  rw [List.take_of_length_le (by omega), List.all_eq_true] at h
  have := h c hc
  simp only [Bool.not_eq_true', Bool.or_eq_false_iff, decide_eq_false_iff_not] at this
  exact ⟨UInt8.not_lt.mp this.1, UInt8.not_lt.mp this.2⟩

/-- What the argument checks of `m2022_qpdl_begin_job` establish about the
texts and the resolution. -/
structure QpdlJob.Accepted (job : QpdlJob) : Prop where
  dpi : job.dpi = 600 ∨ job.dpi = 1200
  paperType : ∃ t, job.paperType = some t ∧ Plain t 32
  serviceDate : ∀ s, job.serviceDate = some s → Plain s 8
  producer : ∀ s, job.producer = some s → Plain s 128

theorem QpdlJob.accepted {job : QpdlJob} (h : job.refused = false) : job.Accepted := by
  simp only [QpdlJob.refused, Bool.or_eq_false_iff, Bool.and_eq_false_iff] at h
  obtain ⟨⟨⟨⟨⟨⟨⟨⟨hdpi, -⟩, htype⟩, -⟩, -⟩, -⟩, -⟩, hdate⟩, hproducer⟩ := h
  refine ⟨by simpa using hdpi, ?_, fun s hs => ?_, fun s hs => ?_⟩
  · cases ht : job.paperType with
    | none => simp [ht] at htype
    | some t => exact ⟨t, rfl, plain_of_plainText (by simpa [ht] using htype)⟩
  · exact plain_of_plainText (by simpa [hs] using hdate)
  · exact plain_of_plainText (by simpa [hs] using hproducer)

/-! ## Writing the envelope -/

/-- The number of writes of an envelope. -/
def envelopeWrites (job : QpdlJob) : Nat :=
  0 + 1 + (decide (job.duplex ≠ DUPLEX_OFF)).toNat + 1 + 1 + (decide (job.dpi = 600)).toNat + 1 + 1 +
    job.producer.toList.length + 1 + job.serviceDate.toList.length + 1

/-- Inside `m2022_qpdl_begin_job` over a sink with these answers: `out` was
accepted, and so will be the next `n` writes, those in front of call `last`. -/
structure Opening (e : Encoder) (job : QpdlJob) (answer : Nat → Int) (out : Bytes)
    (last n : Nat) : Prop where
  job_eq : e.job = job
  inJob : e.inJob = true
  inPage : e.inPage = false
  answer_eq : e.sink.answer = answer
  calls_eq : e.sink.calls + n = last
  accepts : ∀ k < n, answer (e.sink.calls + k) = 0
  accepted : e.sink.accepted = out

section Writes

variable {e : Encoder} {job : QpdlJob} {answer : Nat → Int} {out : Bytes} {last n : Nat}

theorem Opening.emit (h : Opening e job answer out last (n + 1)) (data : Bytes) :
    ∃ e', e.emit data = (OK, e') ∧ Opening e' job answer (out ++ data) last n := by
  have hanswer : e.sink.answer e.sink.calls = 0 := by
    rw [h.answer_eq]
    exact h.accepts 0 (Nat.succ_pos n)
  refine ⟨_, Encoder.emit_of_answer e hanswer data, h.job_eq, h.inJob, h.inPage, h.answer_eq, ?_,
    ?_, ?_⟩
  · rw [← h.calls_eq, Encoder.sent]
    exact Nat.add_right_comm _ _ _
  · intro k hk
    have := h.accepts (k + 1) (by omega)
    rwa [Nat.add_comm k, ← Nat.add_assoc] at this
  · rw [← h.accepted]
    rfl

theorem Opening.emitf (h : Opening e job answer out last (n + 1)) {line : Bytes}
    (hlen : line.length < 256) :
    ∃ e', e.emitf line = (OK, e') ∧ Opening e' job answer (out ++ line) last n := by
  rw [Encoder.emitf, if_neg (by omega)]
  exact h.emit line

theorem Opening.emitfSome {s : Option Bytes}
    (h : Opening e job answer out last (n + s.toList.length)) (line : Bytes → Bytes)
    (hlen : ∀ t, s = some t → (line t).length < 256) :
    ∃ e', e.emitfSome s line = (OK, e') ∧
      Opening e' job answer (out ++ (s.map line).getD []) last n := by
  cases s with
  | none => exact ⟨e, rfl, by simpa using h⟩
  | some t => exact h.emitf (hlen t rfl)

theorem Opening.emitfIf {c : Bool} (h : Opening e job answer out last (n + c.toNat)) {line : Bytes}
    (hlen : line.length < 256) :
    ∃ e', e.emitfIf c line = (OK, e') ∧
      Opening e' job answer (out ++ if c then line else []) last n := by
  cases c with
  | false => exact ⟨e, rfl, by simpa using h⟩
  | true => exact h.emitf hlen

end Writes

/-- An accepted job writes its envelope when the sink takes its writes. -/
theorem beginJob_opening (e : Encoder) (job : QpdlJob) (sink : Sink) (h : job.refused = false)
    (hsink : ∀ k < envelopeWrites job, sink.answer (sink.calls + k) = 0) :
    ∃ e', qpdlBeginJob e job sink = (OK, e') ∧
      Opening e' job sink.answer (sink.accepted ++ envelope job)
        (sink.calls + envelopeWrites job) 0 := by
  obtain ⟨hdpi, ⟨t, ht, hplain⟩, hdate, hproducer⟩ := QpdlJob.accepted h
  have htle := hplain.le
  have i0 : Opening { job := job, sink := sink, inJob := true } job sink.answer sink.accepted
      (sink.calls + envelopeWrites job) (envelopeWrites job) :=
    ⟨rfl, rfl, rfl, rfl, rfl, hsink, rfl⟩
  generalize hlast : sink.calls + envelopeWrites job = last at i0 ⊢
  unfold envelopeWrites at i0
  obtain ⟨e1, h1, i1⟩ := i0.emit uel
  obtain ⟨e2, h2, i2⟩ := i1.emitfSome (fun s => ascii "@PJL DEFAULT SERVICEDATE=" ++ s ++ crlf)
    fun s hs => by
      have := (hdate s hs).le
      have hlen : (ascii "@PJL DEFAULT SERVICEDATE=").length = 25 := by decide
      simp only [List.length_append, hlen, crlf, List.length_cons, List.length_nil]
      omega
  obtain ⟨e3, h3, i3⟩ := i2.emitf
    (show (ascii "@PJL COMMENT Model Name : Samsung M2020 Series" ++ crlf).length < 256 by decide)
  obtain ⟨e4, h4, i4⟩ := i3.emitfSome (fun s => ascii "@PJL COMMENT Producer : " ++ s ++ crlf)
    fun s hs => by
      have := (hproducer s hs).le
      have hlen : (ascii "@PJL COMMENT Producer : ").length = 24 := by decide
      simp only [List.length_append, hlen, crlf, List.length_cons, List.length_nil]
      omega
  obtain ⟨e5, h5, i5⟩ := i4.emitf (show (ascii "@PJL SET XIGNOREFF=" ++
      ascii (if job.skipBlankPages then "ON" else "OFF") ++ crlf ++ crlf).length < 256 by
    cases job.skipBlankPages <;> decide)
  obtain ⟨e6, h6, i6⟩ := i5.emitf (show (ascii "@PJL SET RESOLUTION = " ++
      ascii (toString job.dpi) ++ crlf).length < 256 by
    rcases hdpi with hd | hd <;> rw [hd] <;> decide)
  obtain ⟨e7, h7, i7⟩ := i6.emitfIf
    (show (ascii "@PJL SET BITSPERPIXEL = 1" ++ crlf).length < 256 by decide)
  obtain ⟨e8, h8, i8⟩ := i7.emitf (show (ascii "@PJL SET PAPERTYPE = " ++
      job.paperType.getD [] ++ crlf).length < 256 by
    have hlen : (ascii "@PJL SET PAPERTYPE = ").length = 21 := by decide
    rw [ht]
    simp only [List.length_append, hlen, Option.getD_some, crlf, List.length_cons, List.length_nil]
    omega)
  obtain ⟨e9, h9, i9⟩ := i8.emitf (show (ascii "@PJL SET DUPLEX = " ++
      ascii (if job.duplex = DUPLEX_OFF then "OFF" else "MANUAL") ++ crlf).length < 256 by
    split_ifs <;> decide)
  obtain ⟨e10, h10, i10⟩ := i9.emitfIf
    (show (ascii "@PJL SET BINDING = " ++
      ascii (if job.duplex = DUPLEX_MANUAL_LONG_EDGE then "LONGEDGE" else "SHORTEDGE") ++
        crlf).length < 256 by split_ifs <;> decide)
  obtain ⟨e11, h11, i11⟩ := i10.emitf
    (show (ascii "@PJL ENTER LANGUAGE=QPDL" ++ crlf).length < 256 by decide)
  refine ⟨e11, ?_, ?_⟩
  · rw [qpdlBeginJob, if_neg (by rw [h]; decide)]
    dsimp only
    rw [h1, orReturn_ok, h2, orReturn_ok, h3, orReturn_ok, h4, orReturn_ok, h5, orReturn_ok, h6,
      orReturn_ok, h7, orReturn_ok, h8, orReturn_ok, h9, orReturn_ok, h10, orReturn_ok, h11]
  · -- the chunks written are the lines, each with its line ending
    convert i11 using 1
    rw [envelope, pjlLines, pjlBody, enterLine]
    cases job.serviceDate <;> cases job.producer <;> by_cases hd : job.dpi = 600 <;>
      by_cases hx : job.duplex = 0 <;> simp [linesBytes, hd, hx]

/-- An accepted job writes its envelope on a sink that accepts everything. -/
theorem beginJob_idle (e : Encoder) (job : QpdlJob) (sink : Sink) (h : job.refused = false)
    (hsink : sink.Accepts) :
    ∃ e', qpdlBeginJob e job sink = (OK, e') ∧ Idle e' job (sink.accepted ++ envelope job) := by
  obtain ⟨e', hbegin, hopen⟩ := beginJob_opening e job sink h fun k _ => hsink _
  refine ⟨e', hbegin, hopen.job_eq, hopen.inJob, hopen.inPage, ?_, hopen.accepted⟩
  rw [Sink.Accepts, hopen.answer_eq]
  exact hsink

/-- The end of an idle job. -/
theorem endJob_sent {e : Encoder} {job : QpdlJob} {out : Bytes} (h : Idle e job out) :
    ∃ e', qpdlEndJob e = (OK, e') ∧ e'.inJob = false ∧ e'.inPage = false ∧
      e'.sink.accepted = out ++ jobEnd := by
  rw [qpdlEndJob]
  simp only [h.inJob, h.inPage, Bool.not_true, Bool.or_self, Bool.false_eq_true, if_false]
  have h1 := Encoder.emit_of_answer e.jobClosed (h.accepts _) [REC_END_JOB]
  have h2 := Encoder.emit_of_answer (e.jobClosed.sent [REC_END_JOB]) (h.accepts _) uel
  rw [h1, orReturn_ok, h2]
  refine ⟨_, rfl, rfl, h.inPage, ?_⟩
  rw [← h.accepted]
  exact List.append_assoc e.sink.accepted [REC_END_JOB] uel

end Airbridge.Qpdl
