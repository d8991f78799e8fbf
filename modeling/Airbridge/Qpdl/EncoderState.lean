import Airbridge.Lib.Run
import Airbridge.Qpdl.EncoderCalls

/-!
# The state of the encoder

Runs of the five calls behind a `m2022_qpdl_begin_job` that passed its checks.
`History` is what happened since the latest such call, kept beside the encoder.

* `Tracked` holds behind every run: a page is open only inside a job, and
  `bytes_out` is the number of bytes the sink accepted, modulo `2 ^ 64`.
* `Accurate` holds behind every run in which the sink did not fail and no page
  was too long (`Clean`): the band number and the counters of bands follow the
  lines, and the row buffer holds the rows received and zeros.

The counters of bands are 32 bits wide and wrap, so they are compared with the
bands completed modulo `2 ^ 32` (`Counts`).
-/

namespace Airbridge.Qpdl

/-! ## Runs of calls -/

/-- What happened since the latest job began: how many bytes the sink had
accepted by then and how often it had been called, the lines of each page that
was closed, those of the open page, and the size of the workspace the latest
page was given. -/
structure History where
  acceptedBefore : Nat
  callsBefore : Nat
  pages : List Nat := []
  page : Option Nat := none
  room : Nat := 0
deriving Repr, DecidableEq

/-- The bands completed: a page that is closed completes its last one. -/
def History.bands (h : History) : Nat :=
  (h.pages.map fun n => (n + 127) / 128).sum + h.page.getD 0 / 128

/-- The history behind a call that leads from `e` to `e'`. -/
def History.record (h : History) (e e' : Encoder) : EncoderCall → History
  | .beginJob job sink =>
    if job.refused then h
    else { acceptedBefore := sink.accepted.length, callsBefore := sink.calls }
  | .beginPage _ workspace =>
    if !e.inPage && e'.inPage then
      { h with page := some 0, room := (workspace.getD []).length }
    else h
  | .writeLine bits => if bits.isSome then { h with page := h.page.map (· + 1) } else h
  | .endPage =>
    if e.inPage && !e'.inPage then
      { h with pages := h.pages ++ h.page.toList, page := none }
    else h
  | .endJob => h

/-- The encoder with its history behind a call. -/
def trackedStep (s : Encoder × History) (c : EncoderCall) : Encoder × History :=
  (s.1.call c, s.2.record s.1 (s.1.call c) c)

/-! ### The history behind each call -/

theorem record_beginJob (s : Encoder × History) {job : QpdlJob} (hjob : job.refused = false)
    (sink : Sink) :
    (trackedStep s (.beginJob job sink)).2 =
      { acceptedBefore := sink.accepted.length, callsBefore := sink.calls } :=
  if_neg (ne_true_of_eq_false hjob)

/-- A job that fails its checks changes nothing. -/
theorem trackedStep_refused (s : Encoder × History) {job : QpdlJob} (hjob : job.refused = true)
    (sink : Sink) : trackedStep s (.beginJob job sink) = s := by
  rw [trackedStep, History.record, if_pos hjob, Encoder.call, qpdlBeginJob, if_pos hjob]

theorem trackedStep_beginPage_rejected {s : Encoder × History} {width : Nat}
    {workspace : Option Bytes} (h : (qpdlBeginPage s.1 width workspace).2 = s.1) :
    trackedStep s (.beginPage width workspace) = s := by
  rw [trackedStep, Encoder.call, h, History.record, if_neg (by simp)]

theorem record_beginPage {s : Encoder × History} {width : Nat} {memory : Bytes}
    (hpage : s.1.inPage = false)
    (hemits : Emits (s.1.openPage width memory) (qpdlBeginPage s.1 width (some memory)).2) :
    (trackedStep s (.beginPage width (some memory))).2 =
      { s.2 with page := some 0, room := memory.length } := by
  have hopen : (qpdlBeginPage s.1 width (some memory)).2.inPage = true :=
    congrArg Encoder.inPage hemits.rest
  refine if_pos ?_
  rw [hpage]
  exact hopen

theorem record_writeLine (s : Encoder × History) (bits : Nat → UInt8) :
    (trackedStep s (.writeLine (some bits))).2 = { s.2 with page := s.2.page.map (· + 1) } := rfl

/-- A call without a line changes nothing. -/
theorem trackedStep_writeLine_none (s : Encoder × History) :
    trackedStep s (.writeLine none) = s := by
  rw [trackedStep, History.record, if_neg (by decide), Encoder.call, Option.map_none]
  unfold qpdlWriteLine
  split_ifs <;> rfl

/-- A page that was closed goes to the pages of the job. -/
theorem record_closed {s : Encoder × History}
    (h : (s.1.inPage && !(qpdlEndPage s.1).2.inPage) = true) :
    (trackedStep s .endPage).2 =
      { s.2 with pages := s.2.pages ++ s.2.page.toList, page := none } := if_pos h

theorem record_not_closed {s : Encoder × History}
    (h : (s.1.inPage && !(qpdlEndPage s.1).2.inPage) = false) :
    (trackedStep s .endPage).2 = s.2 := if_neg (ne_true_of_eq_false h)

theorem record_endPage (s : Encoder × History) :
    (trackedStep s .endPage).2.acceptedBefore = s.2.acceptedBefore ∧
      (trackedStep s .endPage).2.callsBefore = s.2.callsBefore := by
  rw [trackedStep, History.record]
  split_ifs
  · exact ⟨rfl, rfl⟩
  · exact ⟨rfl, rfl⟩

theorem trackedStep_endJob_rejected {s : Encoder × History} (h : (qpdlEndJob s.1).2 = s.1) :
    trackedStep s .endJob = s := by
  rw [trackedStep, Encoder.call, h, History.record]

/-! ## What holds behind every run -/

/-- A page is open only inside a job, and what the sink accepted was counted,
modulo `2 ^ 64`. -/
structure Tracked (s : Encoder × History) : Prop where
  inJob : s.1.inPage = true → s.1.inJob = true
  accepted : s.2.acceptedBefore ≤ s.1.sink.accepted.length
  bytes : (s.2.acceptedBefore + s.1.bytesOut) % 2 ^ 64 = s.1.sink.accepted.length % 2 ^ 64
  bytes_lt : s.1.bytesOut < 2 ^ 64
  calls : s.2.callsBefore ≤ s.1.sink.calls
  page : s.2.page.isSome = s.1.inPage
  written_lt : s.1.bandsWritten < 2 ^ 32
  blank_lt : s.1.bandsBlank < 2 ^ 32

/-- A call that goes on with the job keeps the counts. -/
theorem Tracked.advance {s s' : Encoder × History} (h : Tracked s) (ha : Advances s.1 s'.1)
    (haccepted : s'.2.acceptedBefore = s.2.acceptedBefore)
    (hcalls : s'.2.callsBefore = s.2.callsBefore)
    (hinJob : s'.1.inPage = true → s'.1.inJob = true)
    (hpage : s'.2.page.isSome = s'.1.inPage) : Tracked s' := by
  have hbytes := h.bytes
  have hbytes' := ha.bytes_mod
  refine ⟨hinJob, ?_, ?_, ha.bytes_lt h.bytes_lt, ?_, hpage, ha.written_lt h.written_lt,
    ha.blank_lt h.blank_lt⟩
  · rw [haccepted]
    exact h.accepted.trans ha.accepted_le
  · rw [haccepted]
    omega
  · rw [hcalls]
    exact h.calls.trans ha.calls_le

theorem beginJob_tracked (s : Encoder × History) {job : QpdlJob} (hjob : job.refused = false)
    (sink : Sink) : Tracked (trackedStep s (.beginJob job sink)) := by
  have hemits := beginJob_emits s.1 hjob sink
  have hbytes := hemits.bytes_mod
  have hrecord := record_beginJob s hjob sink
  refine ⟨?_, ?_, ?_, ?_, ?_, ?_, ?_, ?_⟩
  · intro _
    show (qpdlBeginJob s.1 job sink).2.inJob = true
    rw [hemits.rest]
  · rw [hrecord]
    exact hemits.accepted_le
  · rw [hrecord]
    show (sink.accepted.length + (qpdlBeginJob s.1 job sink).2.bytesOut) % 2 ^ 64 = _
    rw [Nat.add_comm, hbytes]
    exact congrArg (· % 2 ^ 64) (Nat.zero_add _)
  · exact hemits.bytes_lt (show 0 < 2 ^ 64 by decide)
  · rw [hrecord]
    exact hemits.calls_le
  · rw [hrecord]
    show false = (qpdlBeginJob s.1 job sink).2.inPage
    rw [hemits.rest]
  · exact hemits.written_lt (show 0 < 2 ^ 32 by decide)
  · exact hemits.blank_lt (show 0 < 2 ^ 32 by decide)

theorem openPage_advances (e : Encoder) (width : Nat) (memory : Bytes) :
    Advances e (e.openPage width memory) := Advances.of_eq rfl rfl rfl rfl

theorem jobClosed_advances (e : Encoder) : Advances e e.jobClosed :=
  Advances.of_eq rfl rfl rfl rfl

/-- Every call keeps the invariant. -/
theorem trackedStep_tracked {s : Encoder × History} (h : Tracked s) (c : EncoderCall) :
    Tracked (trackedStep s c) := by
  cases c with
  | beginJob job sink =>
    cases hjob : job.refused with
    | false => exact beginJob_tracked s hjob sink
    | true =>
      rw [trackedStep_refused s hjob sink]
      exact h
  | beginPage width workspace =>
    rcases beginPage_cases s.1 width workspace with
      hsame | ⟨memory, rfl, hinJob, hpage, -, -, -, hemits⟩
    · rw [trackedStep_beginPage_rejected hsame]
      exact h
    · have hopen : (qpdlBeginPage s.1 width (some memory)).2.inPage = true := by
        rw [hemits.rest]
        rfl
      have hrecord := record_beginPage hpage hemits
      refine h.advance ((openPage_advances s.1 width memory).trans hemits.toAdvances) ?_ ?_ ?_ ?_
      · rw [hrecord]
      · rw [hrecord]
      · intro _
        show (qpdlBeginPage s.1 width (some memory)).2.inJob = true
        rw [hemits.rest]
        exact hinJob
      · rw [hrecord]
        exact hopen.symm
  | writeLine bits =>
    cases bits with
    | none =>
      rw [trackedStep_writeLine_none]
      exact h
    | some bits =>
      have hrecord := record_writeLine s bits
      have hkept := writeLine_kept s.1 (some (s.1.lineBytes bits))
      refine h.advance (writeLine_advances s.1 _) ?_ ?_ ?_ ?_
      · rw [hrecord]
      · rw [hrecord]
      · intro hpage
        exact hkept.inJob_eq.trans (h.inJob (hkept.inPage_eq.symm.trans hpage))
      · rw [hrecord, Option.isSome_map]
        exact h.page.trans hkept.inPage_eq.symm
  | endPage =>
    have hinJob : (qpdlEndPage s.1).2.inPage = true → (qpdlEndPage s.1).2.inJob = true := by
      intro hopen
      rw [endPage_inJob]
      exact h.inJob (endPage_open hopen)
    refine h.advance (endPage_advances s.1) (record_endPage s).1 (record_endPage s).2 hinJob ?_
    cases hclosed : (s.1.inPage && !(qpdlEndPage s.1).2.inPage) with
    | true =>
      rw [record_closed hclosed]
      rw [Bool.and_eq_true, Bool.not_eq_true'] at hclosed
      exact hclosed.2.symm
    | false =>
      rw [record_not_closed hclosed, h.page]
      cases hpage : s.1.inPage with
      | false => exact ((congrArg Encoder.inPage (endPage_idle_eq hpage)).trans hpage).symm
      | true =>
        rw [hpage, Bool.true_and, Bool.not_eq_false'] at hclosed
        exact hclosed.symm
  | endJob =>
    rcases endJob_cases s.1 with hsame | ⟨hpage, hemits⟩
    · rw [trackedStep_endJob_rejected hsame]
      exact h
    · have hclosed : (qpdlEndJob s.1).2.inPage = false := by
        rw [hemits.rest]
        exact hpage
      refine h.advance ((jobClosed_advances s.1).trans hemits.toAdvances) rfl rfl
        ?_ ?_
      · intro hopen
        exact absurd (hopen.symm.trans hclosed) (by decide)
      · exact (h.page.trans hpage).trans hclosed.symm

/-! ## Pages while the sink does not fail -/

/-- No call of the sink failed in this job, and no page of it exceeded 256 bands. -/
structure Clean (s : Encoder × History) : Prop where
  accepts : ∀ k, s.2.callsBefore ≤ k → k < s.1.sink.calls → s.1.sink.answer k = 0
  lines_le : ∀ n ∈ s.2.pages ++ s.2.page.toList, n ≤ 256 * 128

/-- A page of `n` lines over a workspace of `size` bytes. -/
structure OpenPage (e : Encoder) (size n width : Nat) (pending : List (List Bool)) : Prop
    extends Buffered e width pending where
  lines : e.lines = n
  pending_lines : e.lines % 128 = pending.length
  bandNumber : e.bandNumber = n / 128
  length_workspace : e.workspace.length = size

/-- The counters of a job that completed `bands` bands.  They count modulo
`2 ^ 32`. -/
structure Counts (written blank bands : Nat) : Prop where
  mod : (written + blank) % 2 ^ 32 = bands % 2 ^ 32
  exact : bands < 2 ^ 32 → written + blank = bands

/-- The encoder agrees with its history. -/
structure Accurate (s : Encoder × History) : Prop where
  page : ∀ n, s.2.page = some n → ∃ width pending, OpenPage s.1 s.2.room n width pending
  counts : Counts s.1.bandsWritten s.1.bandsBlank s.2.bands

theorem Counts.written {written blank bands : Nat} (h : Counts written blank bands) :
    Counts (u32 (written + 1)) blank (bands + 1) := by
  have hmod := h.mod
  refine ⟨?_, fun hlt => ?_⟩
  · unfold u32
    omega
  · have hexact := h.exact (by omega)
    unfold u32
    omega

theorem Counts.blank {written blank bands : Nat} (h : Counts written blank bands) :
    Counts written (u32 (blank + 1)) (bands + 1) := by
  have hmod := h.mod
  refine ⟨?_, fun hlt => ?_⟩
  · unfold u32
    omega
  · have hexact := h.exact (by omega)
    unfold u32
    omega

/-- Writes leave an open page alone. -/
theorem OpenPage.emits {e e' : Encoder} {size n width : Nat} {pending : List (List Bool)}
    (h : OpenPage e size n width pending) (he : Emits e e') :
    OpenPage e' size n width pending := by
  rw [he.rest]
  exact ⟨⟨h.toGeometry.congr rfl rfl rfl rfl rfl rfl, h.pending_le, h.pending_width,
    h.rowBuffer_eq⟩, h.lines, h.pending_lines, h.bandNumber, h.length_workspace⟩

/-- A call that goes on with the job was clean if it leaves it clean. -/
theorem Clean.before {s s' : Encoder × History} (h : Clean s') (ha : Advances s.1 s'.1)
    (hcalls : s'.2.callsBefore = s.2.callsBefore)
    (hlines : ∀ n ∈ s.2.pages ++ s.2.page.toList, ∃ m ∈ s'.2.pages ++ s'.2.page.toList, n ≤ m) :
    Clean s := by
  refine ⟨fun k hk hlt => ?_, fun n hn => ?_⟩
  · rw [← ha.answer_eq]
    exact h.accepts k (by rw [hcalls]; exact hk) (Nat.lt_of_lt_of_le hlt ha.calls_le)
  · obtain ⟨m, hm, hle⟩ := hlines n hn
    exact hle.trans (h.lines_le m hm)

theorem Clean.page_le {s : Encoder × History} (h : Clean s) {n : Nat} (hn : s.2.page = some n) :
    n ≤ 256 * 128 := by
  apply h.lines_le
  rw [hn]
  exact List.mem_append_right _ (List.mem_singleton_self n)

/-- The writes of a call that leaves the job clean were accepted. -/
theorem Clean.accepted {s s' : Encoder × History} (h : Clean s') (ht : Tracked s)
    (ha : Advances s.1 s'.1) (hcalls : s'.2.callsBefore = s.2.callsBefore) :
    ∀ k, s.1.sink.calls ≤ k → k < s'.1.sink.calls → s.1.sink.answer k = 0 := by
  intro k hk hlt
  rw [← ha.answer_eq]
  exact h.accepts k (by rw [hcalls]; exact ht.calls.trans hk) hlt

/-- The first write of a record is always made, the second if that was accepted. -/
theorem calls_sendBand (e : Encoder) (n : Nat) :
    (sendBand e n).2.sink.calls =
      e.sink.calls + if e.sink.answer e.sink.calls = 0 then 2 else 1 := by
  unfold sendBand orReturn Encoder.emit Sink.write
  dsimp only
  by_cases hfirst : e.sink.answer e.sink.calls = 0
  · simp only [hfirst, ne_eq, not_true_eq_false, if_false, if_true]
    split_ifs <;> rfl
  · simp only [hfirst, ne_eq, not_false_eq_true, if_true, if_false]

/-- A flush whose writes were accepted goes through. -/
theorem flushOk_of_accepts {e : Encoder} {width : Nat} {pending : List (List Bool)}
    (h : Buffered e width pending) (hn : e.bandNumber ≤ 255)
    (haccepts : ∀ k, e.sink.calls ≤ k → k < (flushBand e).2.sink.calls → e.sink.answer k = 0) :
    FlushOk e pending := by
  refine ⟨hn, ?_⟩
  cases hw : isWhite pending with
  | true => exact .inl rfl
  | false =>
    obtain ⟨e1, -, he1, -, heq⟩ := flushBand_black h hn hw
    have hsink : e1.sink = e.sink := by rw [he1]
    rw [heq, calls_sendBand, hsink] at haccepts
    have hfirst : e.sink.answer e.sink.calls = 0 := by
      apply haccepts _ (Nat.le_refl _)
      split_ifs <;> omega
    rw [if_pos hfirst] at haccepts
    exact .inr ⟨hfirst, haccepts _ (Nat.le_succ _) (by omega)⟩

/-- A band that was sent is counted, and the rows are cleared. -/
theorem sendBand_flushed {e : Encoder} {n : Nat} (h : (sendBand e n).1 = 0) :
    ∃ sent, Emits e sent ∧ sendBand e n = (OK, sent.flushed) := by
  rw [sendBand, orReturn_eq_zero, orReturn_eq_zero] at h
  obtain ⟨hfirst, hsecond, -⟩ := h
  rw [sendBand, orReturn, if_neg (not_not.mpr hfirst), orReturn, if_neg (not_not.mpr hsecond)]
  exact ⟨_, (emit_emits e _).trans (emit_emits _ _), rfl⟩

theorem sendBand_counts {e : Encoder} {n : Nat} (h : (sendBand e n).1 = 0) {bands : Nat}
    (hcounts : Counts e.bandsWritten e.bandsBlank bands) :
    Counts (sendBand e n).2.bandsWritten (sendBand e n).2.bandsBlank (bands + 1) := by
  obtain ⟨sent, hemits, heq⟩ := sendBand_flushed h
  have hwritten : sent.bandsWritten = e.bandsWritten := by rw [hemits.rest]
  have hblank : sent.bandsBlank = e.bandsBlank := by rw [hemits.rest]
  have hflushed : sent.flushed.bandsWritten = u32 (sent.bandsWritten + 1) := by
    rw [Encoder.flushed]
  rw [heq]
  dsimp only
  rw [hflushed, hwritten, Encoder.flushed]
  dsimp only
  rw [hblank]
  exact hcounts.written

/-- A flush fails before it sends, skips its band, or sends it. -/
theorem flushBand_cases (e : Encoder) :
    (∃ rc e', flushBand e = (rc, e') ∧ rc ≠ 0) ∨ flushBand e = (OK, e.skipped) ∨
      ∃ workspace n, flushBand e = sendBand { e with workspace := workspace } n := by
  rcases Nat.lt_or_ge 255 e.bandNumber with hrange | hn
  · exact .inl ⟨ERANGE, e, flushBand_range hrange, by decide⟩
  cases hw : e.rowBuffer.all (· == 0) with
  | true => exact .inr (.inl (flushBand_blank hn hw))
  | false =>
    unfold Encoder.rowBuffer at hw
    rw [flushBand]
    simp only [hw, if_neg (Nat.not_lt.mpr hn), Bool.false_eq_true, if_false]
    split_ifs with hrc
    · exact .inl ⟨_, _, rfl, hrc⟩
    · exact .inr (.inr ⟨_, _, rfl⟩)

/-- A flush that returns 0 counts its band. -/
theorem flushBand_counts {e : Encoder} (h : (flushBand e).1 = 0) {bands : Nat}
    (hcounts : Counts e.bandsWritten e.bandsBlank bands) :
    Counts (flushBand e).2.bandsWritten (flushBand e).2.bandsBlank (bands + 1) := by
  rcases flushBand_cases e with ⟨rc, e', heq, hrc⟩ | heq | ⟨workspace, n, heq⟩
  · rw [heq] at h
    exact absurd h hrc
  · rw [heq]
    dsimp only
    rw [Encoder.skipped]
    exact hcounts.blank
  · rw [heq] at h ⊢
    exact sendBand_counts h hcounts

/-- A flush of an open page whose writes are accepted leaves it with an empty row
buffer and one more band. -/
theorem flushBand_openPage {e : Encoder} {size n width bands : Nat} {pending : List (List Bool)}
    (h : Buffered e width pending) (hlines : e.lines = n) (hsize : e.workspace.length = size)
    (hband : e.bandNumber ≤ 255)
    (haccepts : ∀ k, e.sink.calls ≤ k → k < (flushBand e).2.sink.calls → e.sink.answer k = 0)
    (hcounts : Counts e.bandsWritten e.bandsBlank bands) :
    (flushBand e).1 = 0 ∧ Buffered (flushBand e).2 width [] ∧ (flushBand e).2.lines = n ∧
      (flushBand e).2.bandNumber = e.bandNumber + 1 ∧
      (flushBand e).2.workspace.length = size ∧
      Counts (flushBand e).2.bandsWritten (flushBand e).2.bandsBlank (bands + 1) := by
  have hok : FlushOk e pending := flushOk_of_accepts h hband haccepts
  have hzero : (flushBand e).1 = 0 := (flushBand_ok_iff h).mpr hok
  have hkept := (flushBand_kept e).length_workspace
  have hcounts' := flushBand_counts hzero hcounts
  obtain ⟨e', heq, hbuffered, hwrote, hnumber⟩ := flushBand_ok h hok
  rw [heq] at hkept hcounts' ⊢
  exact ⟨rfl, hbuffered, hwrote.lines_eq.trans hlines, hnumber, hkept.trans hsize, hcounts'⟩

/-- A line more on an open page. -/
theorem OpenPage.writeLine {e : Encoder} {size n width : Nat} {pending : List (List Bool)}
    (h : OpenPage e size n width pending) (hinPage : e.inPage = true) {bits : Bytes}
    (hbits : (width + 7) / 8 ≤ bits.length) (hn : n + 1 ≤ 256 * 128) {closed : Nat}
    (haccepts : ∀ k, e.sink.calls ≤ k → k < (qpdlWriteLine e (some bits)).2.sink.calls →
      e.sink.answer k = 0)
    (hcounts : Counts e.bandsWritten e.bandsBlank (closed + n / 128)) :
    (∃ pending', OpenPage (qpdlWriteLine e (some bits)).2 size (n + 1) width pending') ∧
      Counts (qpdlWriteLine e (some bits)).2.bandsWritten
        (qpdlWriteLine e (some bits)).2.bandsBlank (closed + (n + 1) / 128) := by
  have hlines := h.lines
  have hpending := h.pending_lines
  have hnumber := h.bandNumber
  have hbuffered := bufferLine_buffered h.toBuffered hpending hbits
  have hcount : (e.bufferLine bits).lines = n + 1 := by
    rw [Encoder.bufferLine, u32, hlines]
    exact Nat.mod_eq_of_lt (by omega)
  have hsize : (e.bufferLine bits).workspace.length = size :=
    (bufferLine_kept e bits).length_workspace.trans h.length_workspace
  rw [writeLine_eq hinPage] at haccepts ⊢
  split_ifs at haccepts ⊢ with hfull
  · have hband : e.bandNumber ≤ 255 := by omega
    obtain ⟨-, hempty, hlines', hnumber', hsize', hcounts'⟩ :=
      flushBand_openPage hbuffered hcount hsize hband haccepts hcounts
    have hbands : closed + n / 128 + 1 = closed + (n + 1) / 128 := by omega
    have hnext : e.bandNumber + 1 = (n + 1) / 128 := by omega
    refine ⟨⟨[], ⟨hempty, hlines', ?_, hnumber'.trans hnext, hsize'⟩⟩, ?_⟩
    · rw [hlines', List.length_nil]
      omega
    · rw [← hbands]
      exact hcounts'
  · have hbands : closed + n / 128 = closed + (n + 1) / 128 := by omega
    have hsame : e.bandNumber = (n + 1) / 128 := by omega
    refine ⟨⟨_, ⟨hbuffered, hcount, ?_, hsame, hsize⟩⟩, ?_⟩
    · rw [hcount, List.length_append, List.length_singleton]
      omega
    · rw [← hbands]
      exact hcounts

/-! ### Each call keeps the encoder accurate -/

/-- A call that leaves the encoder and its history as they were. -/
theorem accurate_of_eq {s s' : Encoder × History} (h : Clean s → Accurate s) (heq : s' = s)
    (hclean : Clean s') : Accurate s' := by
  rw [heq] at hclean ⊢
  exact h hclean

/-- Outside a page there is nothing to say about the page. -/
theorem Tracked.page_none {s : Encoder × History} (h : Tracked s) (hpage : s.1.inPage = false) :
    s.2.page = none := by
  have hsome := h.page
  rw [hpage] at hsome
  exact Option.not_isSome_iff_eq_none.mp (by rw [hsome]; decide)

theorem Tracked.page_some {s : Encoder × History} (h : Tracked s) (hpage : s.1.inPage = true) :
    ∃ n, s.2.page = some n := by
  have hsome := h.page
  rw [hpage] at hsome
  exact Option.isSome_iff_exists.mp hsome

/-- A job that passed its checks starts with no page and no band. -/
theorem beginJob_fresh (s : Encoder × History) {job : QpdlJob} (hjob : job.refused = false)
    (sink : Sink) : Accurate (trackedStep s (.beginJob job sink)) := by
  have hrecord := record_beginJob s hjob sink
  have hrest := (beginJob_emits s.1 hjob sink).rest
  refine ⟨fun n hn => ?_, ?_⟩
  · rw [hrecord] at hn
    exact absurd hn (by simp)
  · have hbands : (trackedStep s (.beginJob job sink)).2.bands = 0 := by
      simp [hrecord, History.bands]
    rw [hbands]
    show Counts (qpdlBeginJob s.1 job sink).2.bandsWritten
      (qpdlBeginJob s.1 job sink).2.bandsBlank 0
    rw [hrest]
    exact ⟨rfl, fun _ => rfl⟩

theorem beginJob_accurate {s : Encoder × History} (h : Clean s → Accurate s) (job : QpdlJob)
    (sink : Sink) (hclean : Clean (trackedStep s (.beginJob job sink))) :
    Accurate (trackedStep s (.beginJob job sink)) := by
  cases hjob : job.refused with
  | true => exact accurate_of_eq h (trackedStep_refused s hjob sink) hclean
  | false => exact beginJob_fresh s hjob sink

theorem beginPage_accurate {s : Encoder × History} (ht : Tracked s) (h : Clean s → Accurate s)
    (width : Nat) (workspace : Option Bytes)
    (hclean : Clean (trackedStep s (.beginPage width workspace))) :
    Accurate (trackedStep s (.beginPage width workspace)) := by
  rcases beginPage_cases s.1 width workspace with
    hsame | ⟨memory, rfl, -, hpage, hpos, hle, hroom, hemits⟩
  · exact accurate_of_eq h (trackedStep_beginPage_rejected hsame) hclean
  · have hrecord := record_beginPage hpage hemits
    have hnone : s.2.page = none := ht.page_none hpage
    have hadvances := (openPage_advances s.1 width memory).trans hemits.toAdvances
    have hbefore : Clean s := by
      refine hclean.before hadvances (by rw [hrecord]) fun n hn => ⟨n, ?_, Nat.le_refl n⟩
      rw [hrecord]
      rw [hnone] at hn
      rw [Option.toList_none, List.append_nil] at hn
      exact List.mem_append_left _ hn
    have hcounts := (h hbefore).counts
    have hbuffered := openPage_buffered s.1 hpos hle hroom
    have hopened : OpenPage (s.1.openPage width memory) memory.length 0 width [] :=
      ⟨hbuffered, rfl, rfl, rfl, Buffer.length_store _ _ _⟩
    refine ⟨fun n hn => ?_, ?_⟩
    · rw [hrecord] at hn ⊢
      cases hn
      exact ⟨width, [], hopened.emits hemits⟩
    · have hbands : (trackedStep s (.beginPage width (some memory))).2.bands = s.2.bands := by
        rw [hrecord, History.bands, History.bands, hnone]
        rfl
      rw [hbands]
      show Counts (qpdlBeginPage s.1 width (some memory)).2.bandsWritten
        (qpdlBeginPage s.1 width (some memory)).2.bandsBlank s.2.bands
      rw [hemits.rest]
      exact hcounts

/-- The bytes read of a line are those of the page's width. -/
theorem OpenPage.lineBytes {e : Encoder} {size n width : Nat} {pending : List (List Bool)}
    (h : OpenPage e size n width pending) (bits : Nat → UInt8) :
    (e.lineBytes bits).length = (width + 7) / 8 := by
  rw [Encoder.lineBytes, List.length_map, List.length_range, h.rowBytesUsed_eq]

theorem writeLine_accurate {s : Encoder × History} (ht : Tracked s) (h : Clean s → Accurate s)
    (bits : Option (Nat → UInt8)) (hclean : Clean (trackedStep s (.writeLine bits))) :
    Accurate (trackedStep s (.writeLine bits)) := by
  cases bits with
  | none => exact accurate_of_eq h (trackedStep_writeLine_none s) hclean
  | some bits =>
    have hrecord := record_writeLine s bits
    cases hpage : s.1.inPage with
    | false =>
      refine accurate_of_eq h ?_ hclean
      have hnone := ht.page_none hpage
      have hsame : s.1.call (.writeLine (some bits)) = s.1 := by
        rw [Encoder.call]
        unfold qpdlWriteLine
        rw [hpage]
        rfl
      refine Prod.ext hsame ?_
      rw [hrecord, hnone, Option.map_none, ← hnone]
    | true =>
      obtain ⟨n, hn⟩ := ht.page_some hpage
      rw [hn, Option.map_some] at hrecord
      have hadvances := writeLine_advances s.1 (some (s.1.lineBytes bits))
      have hbefore : Clean s := by
        refine hclean.before hadvances (by rw [hrecord]) fun m hm => ?_
        rw [hrecord]
        rw [hn, List.mem_append] at hm
        rcases hm with hm | hm
        · exact ⟨m, List.mem_append_left _ hm, Nat.le_refl m⟩
        · refine ⟨n + 1, List.mem_append_right _ (List.mem_singleton_self _), ?_⟩
          rw [Option.toList_some, List.mem_singleton] at hm
          omega
      have hle : n + 1 ≤ 256 * 128 := hclean.page_le (by rw [hrecord])
      have hcounts := (h hbefore).counts
      obtain ⟨width, pending, hopen⟩ := (h hbefore).page n hn
      have haccepts := hclean.accepted ht hadvances (by rw [hrecord])
      rw [History.bands, hn] at hcounts
      obtain ⟨⟨pending', hopen'⟩, hcounts'⟩ :=
        hopen.writeLine hpage (hopen.lineBytes bits).ge hle haccepts hcounts
      refine ⟨fun m hm => ?_, ?_⟩
      · rw [hrecord] at hm ⊢
        cases hm
        exact ⟨width, pending', hopen'⟩
      · rw [hrecord, History.bands]
        exact hcounts'

/-- The bands of a job whose open page of `n` lines is closed. -/
theorem History.bands_closed {h : History} {n : Nat} (hn : h.page = some n) :
    { h with pages := h.pages ++ h.page.toList, page := none : History }.bands =
      (h.pages.map fun n => (n + 127) / 128).sum + (n + 127) / 128 := by
  simp [History.bands, hn]

theorem History.bands_open {h : History} {n : Nat} (hn : h.page = some n) :
    h.bands = (h.pages.map fun n => (n + 127) / 128).sum + n / 128 := by
  rw [History.bands, hn, Option.getD_some]

/-- The last flush of a page goes through while the sink accepts its writes, and
completes the last band of the page. -/
theorem flushBand_accurate {s : Encoder × History} (h : Accurate s) {n : Nat}
    (hn : s.2.page = some n) (hle : n ≤ 256 * 128) (hunfinished : s.1.lines % 128 ≠ 0)
    (haccepts : ∀ k, s.1.sink.calls ≤ k → k < (flushBand s.1).2.sink.calls →
      s.1.sink.answer k = 0) :
    (flushBand s.1).1 = 0 ∧
      Counts (flushBand s.1).2.bandsWritten (flushBand s.1).2.bandsBlank
        ((s.2.pages.map fun n => (n + 127) / 128).sum + (n + 127) / 128) := by
  obtain ⟨width, pending, hopen⟩ := h.page n hn
  have hlines := hopen.lines
  have hnumber := hopen.bandNumber
  have hcounts := h.counts
  rw [History.bands_open hn] at hcounts
  obtain ⟨hzero, -, -, -, -, hcounts'⟩ := flushBand_openPage hopen.toBuffered hlines
    hopen.length_workspace (by omega) haccepts hcounts
  have hbands : n / 128 + 1 = (n + 127) / 128 := by omega
  rw [Nat.add_assoc, hbands] at hcounts'
  exact ⟨hzero, hcounts'⟩

theorem endPage_accurate {s : Encoder × History} (ht : Tracked s) (h : Clean s → Accurate s)
    (hclean : Clean (trackedStep s .endPage)) : Accurate (trackedStep s .endPage) := by
  have hadvances := endPage_advances s.1
  cases hpage : s.1.inPage with
  | false =>
    refine accurate_of_eq h (Prod.ext (endPage_idle_eq hpage) ?_) hclean
    exact record_not_closed (by rw [hpage]; rfl)
  | true =>
    obtain ⟨n, hn⟩ := ht.page_some hpage
    have hlines : ∀ m ∈ s.2.pages ++ s.2.page.toList,
        m ∈ (trackedStep s .endPage).2.pages ++ (trackedStep s .endPage).2.page.toList := by
      intro m hm
      cases hclosed : (s.1.inPage && !(qpdlEndPage s.1).2.inPage) with
      | true =>
        rw [record_closed hclosed]
        exact List.mem_append_left _ hm
      | false =>
        rw [record_not_closed hclosed]
        exact hm
    have hcalls := (record_endPage s).2
    have hbefore : Clean s :=
      hclean.before hadvances hcalls fun m hm => ⟨m, hlines m hm, Nat.le_refl m⟩
    have hle : n ≤ 256 * 128 := hbefore.page_le hn
    have haccepts : ∀ k, s.1.sink.calls ≤ k → k < (qpdlEndPage s.1).2.sink.calls →
        s.1.sink.answer k = 0 := hclean.accepted ht hadvances hcalls
    -- a page that was closed is counted with its last band
    have hdone (hclosed : (qpdlEndPage s.1).2.inPage = false)
        (hcounts : Counts (qpdlEndPage s.1).2.bandsWritten (qpdlEndPage s.1).2.bandsBlank
          ((s.2.pages.map fun n => (n + 127) / 128).sum + (n + 127) / 128)) :
        Accurate (trackedStep s .endPage) := by
      have hrecord := record_closed (s := s) (by rw [hpage, hclosed]; rfl)
      refine ⟨fun m hm => ?_, ?_⟩
      · rw [hrecord] at hm
        exact absurd hm (by simp)
      · rw [hrecord, History.bands_closed hn]
        exact hcounts
    rcases endPage_cases s.1 with ⟨hidle, -⟩ | ⟨-, hunfinished, hfail, heq⟩ |
      ⟨-, hunfinished, -, hemits⟩ | ⟨-, hfull, hemits⟩
    · exact absurd (hpage.symm.trans hidle) (by decide)
    · rw [heq] at haccepts
      exact absurd (flushBand_accurate (h hbefore) hn hle hunfinished haccepts).1 hfail
    · have haccepts' : ∀ k, s.1.sink.calls ≤ k → k < (flushBand s.1).2.sink.calls →
          s.1.sink.answer k = 0 :=
        fun k hk hlt => haccepts k hk (Nat.lt_of_lt_of_le hlt hemits.calls_le)
      have hcounts := (flushBand_accurate (h hbefore) hn hle hunfinished haccepts').2
      have hrest := hemits.rest
      refine hdone (by rw [hrest]; rfl) ?_
      rw [hrest]
      exact hcounts
    · obtain ⟨width, pending, hopen⟩ := (h hbefore).page n hn
      have hrest := hemits.rest
      have hcounts := (h hbefore).counts
      have hbands : n / 128 = (n + 127) / 128 := by
        have := hopen.lines
        omega
      rw [History.bands_open hn, hbands] at hcounts
      refine hdone (by rw [hrest]; rfl) ?_
      rw [hrest]
      exact hcounts

theorem endJob_accurate {s : Encoder × History} (ht : Tracked s) (h : Clean s → Accurate s)
    (hclean : Clean (trackedStep s .endJob)) : Accurate (trackedStep s .endJob) := by
  rcases endJob_cases s.1 with hsame | ⟨hpage, hemits⟩
  · exact accurate_of_eq h (trackedStep_endJob_rejected hsame) hclean
  · have hadvances := (jobClosed_advances s.1).trans hemits.toAdvances
    have hbefore : Clean s :=
      hclean.before hadvances rfl fun m hm => ⟨m, hm, Nat.le_refl m⟩
    have hnone : (trackedStep s .endJob).2.page = none := ht.page_none hpage
    have hcounts := (h hbefore).counts
    refine ⟨fun n hn => ?_, ?_⟩
    · rw [hnone] at hn
      exact absurd hn (by simp)
    · show Counts (qpdlEndJob s.1).2.bandsWritten (qpdlEndJob s.1).2.bandsBlank s.2.bands
      rw [hemits.rest]
      exact hcounts

/-- Every call keeps the encoder accurate while the job stays clean. -/
theorem trackedStep_accurate {s : Encoder × History} (ht : Tracked s)
    (h : Clean s → Accurate s) (c : EncoderCall) (hclean : Clean (trackedStep s c)) :
    Accurate (trackedStep s c) := by
  cases c with
  | beginJob job sink => exact beginJob_accurate h job sink hclean
  | beginPage width workspace => exact beginPage_accurate ht h width workspace hclean
  | writeLine bits => exact writeLine_accurate ht h bits hclean
  | endPage => exact endPage_accurate ht h hclean
  | endJob => exact endJob_accurate ht h hclean

/-! ## What an open page looks like -/

/-- Row `r` of the row buffer. -/
def Encoder.row (e : Encoder) (r : Nat) : Bytes :=
  Buffer.load e.workspace (e.rows + r * e.bytesPerRow) e.bytesPerRow

/-- The fields inside a page: the band number counts the bands of its lines,
the row buffer is clear behind the rows of the band being filled and right of
the width, and the three slices lie one behind the other in the workspace. -/
structure PageState (e : Encoder) : Prop where
  bandNumber : e.bandNumber = e.lines / 128
  rows_behind : ∀ r, e.lines % 128 ≤ r → r < 128 → ∀ b ∈ e.row r, b = 0
  bits_right : ∀ r < 128, ∀ x, e.width ≤ x → Bits.get (e.row r) x = false
  rows_end : e.rows + e.bytesPerRow * 128 ≤ e.band
  band_end : e.band + e.bytesPerRow * 128 ≤ e.payload
  payload_end : e.payload + e.payloadCap ≤ e.workspace.length

/-- A row lies inside the row buffer. -/
theorem Buffered.row_eq {e : Encoder} {width : Nat} {pending : List (List Bool)}
    (h : Buffered e width pending) {r : Nat} (hr : r < 128) :
    e.row r = Buffer.load (bandRows width pending) (r * rowBytes width) (rowBytes width) := by
  have hinside : r * rowBytes width + rowBytes width ≤ rowBytes width * 128 := by
    rw [← Nat.succ_mul, Nat.mul_comm (rowBytes width)]
    exact Nat.mul_le_mul_right _ hr
  rw [← h.rowBuffer_eq, Encoder.rowBuffer, h.bytesPerRow_eq, Buffer.load_load _ _ hinside,
    Encoder.row, h.bytesPerRow_eq]

/-- A row that was received is there, packed. -/
theorem Buffered.row_pending {e : Encoder} {width : Nat} {pending : List (List Bool)}
    (h : Buffered e width pending) {r : Nat} (hr : r < pending.length) :
    e.row r = packRow width pending[r] := by
  have hle := h.pending_le
  rw [h.row_eq (by omega), bandRows]
  exact Buffer.load_flatMap (length_packRow width) pending _ hr

/-- The rows behind them are zero. -/
theorem Buffered.row_behind {e : Encoder} {width : Nat} {pending : List (List Bool)}
    (h : Buffered e width pending) {r : Nat} (hle : pending.length ≤ r) (hr : r < 128) :
    ∀ b ∈ e.row r, b = 0 := by
  have hskip : (pending.flatMap (packRow width)).length ≤ r * rowBytes width := by
    rw [length_flatMap_packRow]
    exact Nat.mul_le_mul_right _ hle
  rw [h.row_eq hr, bandRows, Buffer.load, List.drop_append, List.drop_eq_nil_of_le hskip,
    List.nil_append]
  intro b hb
  exact List.eq_of_mem_replicate (List.mem_of_mem_drop (List.mem_of_mem_take hb))

theorem OpenPage.pageState {e : Encoder} {size n width : Nat} {pending : List (List Bool)}
    (h : OpenPage e size n width pending) : PageState e := by
  have hroom := h.room
  have hbytes := bandBytes_eq width
  have hlines := h.pending_lines
  rw [qpdlEncoderWorkspaceBytes] at hroom
  refine ⟨?_, ?_, ?_, ?_, ?_, ?_⟩
  · rw [h.bandNumber, h.lines]
  · intro r hle hr
    exact h.row_behind (by omega) hr
  · intro r hr x hx
    rw [h.width_eq] at hx
    rcases Nat.lt_or_ge r pending.length with hlt | hge
    · have hwidth := h.pending_width _ (List.getElem_mem hlt)
      rw [h.row_pending hlt, packRow]
      rcases Nat.lt_or_ge x (8 * rowBytes width) with hin | hout
      · rw [Bits.get_pack _ hin]
        exact List.getD_eq_default _ _ (by omega)
      · exact Bits.get_of_le (by rw [Bits.length_pack]; exact hout)
    · exact (Bits.all_zero_iff _).mp (h.row_behind hge hr) x
  · rw [h.rows_eq, h.bytesPerRow_eq, h.band_eq]
    omega
  · rw [h.bytesPerRow_eq, h.band_eq, h.payload_eq]
    omega
  · rw [h.payload_eq, h.payloadCap_eq]
    exact hroom

/-! ## The invariant -/

/-- The invariant of the encoder with its history. -/
structure Follows (s : Encoder × History) : Prop where
  tracked : Tracked s
  accurate : Clean s → Accurate s

theorem beginJob_follows (s : Encoder × History) {job : QpdlJob} (hjob : job.refused = false)
    (sink : Sink) : Follows (trackedStep s (.beginJob job sink)) :=
  ⟨beginJob_tracked s hjob sink, fun _ => beginJob_fresh s hjob sink⟩

theorem trackedStep_follows (s : Encoder × History) (c : EncoderCall) (h : Follows s) :
    Follows (trackedStep s c) :=
  ⟨trackedStep_tracked h.tracked c, trackedStep_accurate h.tracked h.accurate c⟩

theorem run_follows {s : Encoder × History} (h : Follows s) (calls : List EncoderCall) :
    Follows (Run.run trackedStep s calls) :=
  Run.run_invariant trackedStep_follows h calls

/-! ## Jobs of short pages -/

/-- The call that opens a page over a clear workspace of the size it needs. -/
def openCall (width : Nat) : EncoderCall :=
  .beginPage width (some (List.replicate (qpdlEncoderWorkspaceBytes width) 0))

/-- A page of one white line. -/
def blankPage : List EncoderCall := [openCall 8, .writeLine (some fun _ => 0), .endPage]

/-- A job over a sink that accepts everything, behind `n` pages of one line, of
which each left a byte or more, and inside `page`. -/
structure BlankJob (s : Encoder × History) (n : Nat) (page : Option Nat) : Prop where
  follows : Follows s
  fresh : s.2.acceptedBefore = 0
  sent : n + page.toList.length ≤ s.1.sink.accepted.length
  accepts : s.1.sink.Accepts
  inJob : s.1.inJob = true
  pages : s.2.pages = List.replicate n 1
  page : s.2.page = page

theorem BlankJob.inPage {s : Encoder × History} {n : Nat} {page : Option Nat}
    (h : BlankJob s n page) : s.1.inPage = page.isSome := by
  rw [← h.follows.tracked.page, h.page]

theorem BlankJob.clean {s : Encoder × History} {n : Nat} {page : Option Nat}
    (h : BlankJob s n page) (hpage : ∀ m ∈ page.toList, m ≤ 1) : Clean s := by
  have hone : 1 ≤ 256 * 128 := by decide
  refine ⟨fun k _ _ => h.accepts k, fun m hm => ?_⟩
  rw [h.pages, h.page, List.mem_append] at hm
  rcases hm with hm | hm
  · rw [List.eq_of_mem_replicate hm]
    exact hone
  · exact (hpage m hm).trans hone

theorem BlankJob.bands {s : Encoder × History} {n : Nat} (h : BlankJob s n none) :
    s.2.bands = n := by
  have hsum : ((List.replicate n 1).map fun n => (n + 127) / 128).sum = n := by
    rw [List.map_replicate, List.sum_replicate_nat]
    exact Nat.mul_one n
  rw [History.bands, h.pages, hsum, h.page]
  rfl

theorem BlankJob.beginPage {s : Encoder × History} {n : Nat} (h : BlankJob s n none) {width : Nat}
    (hpos : 0 < width) (hle : width ≤ 65280) :
    BlankJob (trackedStep s (openCall width)) n (some 0) := by
  have hmemory : qpdlEncoderWorkspaceBytes width ≤
      (List.replicate (qpdlEncoderWorkspaceBytes width) (0 : UInt8)).length :=
    List.length_replicate.ge
  have hidle : s.1.inPage = false := h.inPage
  have hopens := beginPage_opens h.inJob hidle hpos hle hmemory
  have hrecord := record_beginPage hidle hopens
  rw [openCall]
  refine ⟨trackedStep_follows s _ h.follows, ?_, ?_, ?_, ?_, ?_, ?_⟩
  · rw [hrecord]
    exact h.fresh
  · -- the page header is accepted
    have hjob : Idle s.1 s.1.job s.1.sink.accepted := ⟨rfl, h.inJob, hidle, h.accepts, rfl⟩
    obtain ⟨e', hbegin, hmid⟩ := beginPage_midPage hjob hpos hle hmemory
    have hsent := h.sent
    show n + 1 ≤ (qpdlBeginPage s.1 width _).2.sink.accepted.length
    rw [hbegin, hmid.accepted, List.length_append]
    have hheader : 1 ≤ (writePageHeader s.1.job.pageHeader).length := by simp [writePageHeader]
    rw [Option.toList_none, List.length_nil] at hsent
    omega
  · exact ((openPage_advances s.1 width _).trans hopens.toAdvances).accepts h.accepts
  · exact (congrArg Encoder.inJob hopens.rest).trans h.inJob
  · rw [hrecord]
    exact h.pages
  · rw [hrecord]

theorem BlankJob.writeLine {s : Encoder × History} {n : Nat} (h : BlankJob s n (some 0))
    (bits : Nat → UInt8) : BlankJob (trackedStep s (.writeLine (some bits))) n (some 1) := by
  have hrecord := record_writeLine s bits
  refine ⟨trackedStep_follows s _ h.follows, ?_, ?_, ?_, ?_, ?_, ?_⟩
  · rw [hrecord]
    exact h.fresh
  · exact h.sent.trans (writeLine_advances s.1 _).accepted_le
  · exact (writeLine_advances s.1 _).accepts h.accepts
  · exact (writeLine_kept s.1 _).inJob_eq.trans h.inJob
  · rw [hrecord]
    exact h.pages
  · rw [hrecord, h.page]
    rfl

/-- A page closes while the sink accepts its writes. -/
theorem endPage_closes {s : Encoder × History} (h : Follows s) (hclean : Clean s)
    (haccepts : s.1.sink.Accepts) : (qpdlEndPage s.1).2.inPage = false := by
  rcases endPage_cases s.1 with ⟨hidle, heq⟩ | ⟨hopen, hunfinished, hfail, -⟩ |
    ⟨-, -, -, hemits⟩ | ⟨-, -, hemits⟩
  · rw [heq]
    exact hidle
  · obtain ⟨n, hn⟩ := h.tracked.page_some hopen
    exact absurd (flushBand_accurate (h.accurate hclean) hn (hclean.page_le hn) hunfinished
      fun k _ _ => haccepts k).1 hfail
  · rw [hemits.rest]
    rfl
  · rw [hemits.rest]
    rfl

theorem BlankJob.endPage {s : Encoder × History} {n : Nat} (h : BlankJob s n (some 1)) :
    BlankJob (trackedStep s .endPage) (n + 1) none := by
  have hclean : Clean s := h.clean fun m hm => (List.mem_singleton.mp hm).le
  have hclosed := endPage_closes h.follows hclean h.accepts
  have hopen : s.1.inPage = true := h.inPage
  have hrecord := record_closed (s := s) (by rw [hopen, hclosed]; rfl)
  refine ⟨trackedStep_follows s _ h.follows, ?_, ?_, ?_, ?_, ?_, ?_⟩
  · rw [hrecord]
    exact h.fresh
  · exact h.sent.trans (endPage_advances s.1).accepted_le
  · exact (endPage_advances s.1).accepts h.accepts
  · exact (endPage_inJob s.1).trans h.inJob
  · rw [hrecord, h.pages, h.page, List.replicate_succ']
    rfl
  · rw [hrecord]

/-- `m` pages more. -/
theorem BlankJob.run {s : Encoder × History} {n : Nat} (h : BlankJob s n none) (m : Nat) :
    BlankJob (Run.run trackedStep s (List.replicate m blankPage).flatten) (n + m) none := by
  induction m generalizing s n with
  | zero => exact h
  | succ m ih =>
    rw [List.replicate_succ, List.flatten_cons, Run.run_append, Nat.add_comm m, ← Nat.add_assoc]
    exact ih ((h.beginPage (by decide) (by decide)).writeLine _).endPage

/-- The encoder before its first job. -/
def idleEncoder : Encoder × History :=
  ({ job := qpdlJobDefault, sink := Sink.accepting }, { acceptedBefore := 0, callsBefore := 0 })

/-- The default job with `n` pages of one white line. -/
def blankJob (n : Nat) : Encoder × History :=
  Run.run trackedStep (trackedStep idleEncoder (.beginJob qpdlJobDefault Sink.accepting))
    (List.replicate n blankPage).flatten

theorem qpdlJobDefault_accepted : qpdlJobDefault.refused = false := by decide

theorem blankJob_spec (n : Nat) : BlankJob (blankJob n) n none := by
  have hemits := beginJob_emits idleEncoder.1 qpdlJobDefault_accepted Sink.accepting
  have hstart : BlankJob (trackedStep idleEncoder (.beginJob qpdlJobDefault Sink.accepting)) 0
      none := by
    have hrecord := record_beginJob idleEncoder qpdlJobDefault_accepted Sink.accepting
    refine ⟨beginJob_follows _ qpdlJobDefault_accepted _, ?_, Nat.zero_le _, ?_, ?_, ?_, ?_⟩
    · rw [hrecord]
      rfl
    · intro k
      exact congrFun hemits.answer_eq k
    · exact congrArg Encoder.inJob hemits.rest
    · rw [hrecord]
      rfl
    · rw [hrecord]
  have hrun := hstart.run n
  rw [Nat.zero_add] at hrun
  exact hrun

/-! ## Every run -/

/-- In every state reached behind a job that passed its checks, a page is open
only inside a job and `bytes_out` is what the sink accepted, modulo `2 ^ 64`.
While no call of the sink failed and no page was too long, the counters of
bands are the bands completed, modulo `2 ^ 32`, and an open page is as
`PageState` says. -/
theorem encoder_state_invariant (s : Encoder × History) {job : QpdlJob}
    (hjob : job.refused = false) (sink : Sink) (calls : List EncoderCall) :
    let s' := Run.run trackedStep (trackedStep s (.beginJob job sink)) calls
    let sent := s'.1.sink.accepted.length - s'.2.acceptedBefore
    (s'.1.inPage = true → s'.1.inJob = true) ∧
      s'.2.acceptedBefore ≤ s'.1.sink.accepted.length ∧ s'.1.bytesOut = sent % 2 ^ 64 ∧
      (sent < 2 ^ 64 → s'.1.bytesOut = sent) ∧
      (Clean s' →
        (s'.1.bandsWritten + s'.1.bandsBlank) % 2 ^ 32 = s'.2.bands % 2 ^ 32 ∧
          (s'.2.bands < 2 ^ 32 → s'.1.bandsWritten + s'.1.bandsBlank = s'.2.bands) ∧
          (s'.1.inPage = true →
            s'.2.page = some s'.1.lines ∧ s'.1.workspace.length = s'.2.room ∧
              PageState s'.1)) := by
  intro s' sent
  have h : Follows s' := run_follows (beginJob_follows s hjob sink) calls
  have hbytes : s'.1.bytesOut = sent % 2 ^ 64 := by
    have hmod := h.tracked.bytes
    have hlt := h.tracked.bytes_lt
    have hle := h.tracked.accepted
    show s'.1.bytesOut = (s'.1.sink.accepted.length - s'.2.acceptedBefore) % 2 ^ 64
    omega
  refine ⟨h.tracked.inJob, h.tracked.accepted, hbytes, fun hlt => ?_, fun hclean => ?_⟩
  · rw [hbytes, Nat.mod_eq_of_lt hlt]
  · have haccurate := h.accurate hclean
    refine ⟨haccurate.counts.mod, haccurate.counts.exact, fun hpage => ?_⟩
    obtain ⟨n, hn⟩ := h.tracked.page_some hpage
    obtain ⟨width, pending, hopen⟩ := haccurate.page n hn
    exact ⟨by rw [hn, hopen.lines], hopen.length_workspace, hopen.pageState⟩

/-- Three pages of one white line, and a fourth of 12 pixels whose first line,
black, is pending. -/
def pendingJob : Encoder × History :=
  Run.run trackedStep (blankJob 3) [openCall 12, .writeLine (some fun _ => 0xFF)]

/-- Three bands are completed, and the page with the pending row is open. -/
theorem encoder_state_invariant_pending :
    Clean pendingJob ∧ pendingJob.1.bandsWritten + pendingJob.1.bandsBlank = 3 ∧
      pendingJob.1.inPage = true ∧ pendingJob.1.lines = 1 ∧ PageState pendingJob.1 := by
  have hjob : BlankJob pendingJob 3 (some 1) :=
    ((blankJob_spec 3).beginPage (by decide) (by decide)).writeLine fun _ => 0xFF
  have hclean : Clean pendingJob := hjob.clean (by simp)
  have hbands : pendingJob.2.bands = 3 := by
    rw [History.bands, hjob.pages, hjob.page]
    rfl
  have hlt : pendingJob.2.bands < 2 ^ 32 := by
    rw [hbands]
    decide
  have hpage : pendingJob.1.inPage = true := hjob.inPage
  have hrun : pendingJob = Run.run trackedStep
      (trackedStep idleEncoder (.beginJob qpdlJobDefault Sink.accepting))
      ((List.replicate 3 blankPage).flatten ++ [openCall 12, .writeLine (some fun _ => 0xFF)]) := by
    rw [Run.run_append]
    rfl
  obtain ⟨-, -, -, -, hcounts⟩ := encoder_state_invariant idleEncoder qpdlJobDefault_accepted
    Sink.accepting ((List.replicate 3 blankPage).flatten ++
      [openCall 12, .writeLine (some fun _ => 0xFF)])
  rw [← hrun] at hcounts
  obtain ⟨-, hexact, hopen⟩ := hcounts hclean
  obtain ⟨hlines, -, hstate⟩ := hopen hpage
  have hone : pendingJob.1.lines = 1 := Option.some.inj (hlines.symm.trans hjob.page)
  exact ⟨hclean, (hexact hlt).trans hbands, hpage, hone, hstate⟩

/-- Behind `2 ^ 33` such pages the counters of bands have wrapped: no two
numbers below `2 ^ 32` add up to the bands completed.  Behind `2 ^ 64` of them
`bytes_out` has. -/
theorem encoderCounters_wrap :
    (Clean (blankJob (2 ^ 33)) ∧
      (blankJob (2 ^ 33)).1.bandsWritten + (blankJob (2 ^ 33)).1.bandsBlank ≠
        (blankJob (2 ^ 33)).2.bands) ∧
      (blankJob (2 ^ 64)).2.acceptedBefore + (blankJob (2 ^ 64)).1.bytesOut ≠
        (blankJob (2 ^ 64)).1.sink.accepted.length := by
  constructor
  · have h := blankJob_spec (2 ^ 33)
    have hwritten := h.follows.tracked.written_lt
    have hblank := h.follows.tracked.blank_lt
    refine ⟨h.clean (by simp), ?_⟩
    rw [h.bands]
    generalize blankJob (2 ^ 33) = s at hwritten hblank
    omega
  · have h := blankJob_spec (2 ^ 64)
    have hlt := h.follows.tracked.bytes_lt
    have hsent := h.sent
    rw [h.fresh, Nat.zero_add]
    rw [Option.toList_none, List.length_nil, Nat.add_zero] at hsent
    exact ne_of_lt (hlt.trans_le hsent)

end Airbridge.Qpdl
