import Airbridge.Lib.Run
import Airbridge.Qpdl.Bitmap

/-!
# Lines behind a failing sink

A page over a sink that may refuse any call.  A line is buffered and counted
before the band it completes is flushed, so a refused flush leaves 128 lines
behind that `m2022_qpdl_end_page` no longer knows about: it flushes only when
the line counter does not sit on a multiple of 128.  As long as no flush inside
`m2022_qpdl_write_line` is refused, every line of a page that ends with 0 is
in the stream.
-/

namespace Airbridge.Qpdl

/-! ## Runs of lines -/

def lineStep (e : Encoder) (row : Bytes) : Encoder := (qpdlWriteLine e (some row)).2

/-- The codes of the calls, one for each row. -/
def lineCodes (e : Encoder) : List Bytes → List Int
  | [] => []
  | row :: rows => (qpdlWriteLine e (some row)).1 :: lineCodes (lineStep e row) rows

/-- A flush of this encoder is let through: its band number fits a byte, and
its rows are white or the sink accepts the next two writes. -/
def Encoder.FlushAccepted (e : Encoder) : Prop :=
  e.bandNumber ≤ 255 ∧
    (e.rowBuffer.all (· == 0) = true ∨
      e.sink.answer e.sink.calls = 0 ∧ e.sink.answer (e.sink.calls + 1) = 0)

/-- The line completes no band, or the flush of its band is let through. -/
def LineOk (e : Encoder) (row : Bytes) : Prop :=
  e.lines % 128 = 127 → (e.bufferLine row).FlushAccepted

/-- If the page that opened as `e` ends with 0 behind `rows`, every row that
was taken with 0 is drawn at its line by the bands the sink accepted. -/
def LinesKept (e : Encoder) (width : Nat) (rows : List Bytes) : Prop :=
  let end_ := qpdlEndPage (Run.run lineStep e rows)
  end_.1 = 0 → ∀ y, (lineCodes e rows)[y]? = some 0 → ∀ x < width,
    bitmapOf (bandsOf (end_.2.sink.accepted.drop e.sink.accepted.length)) y x =
      Bits.get (rows.getD y []) x

theorem length_lineCodes (e : Encoder) (rows : List Bytes) :
    (lineCodes e rows).length = rows.length := by
  induction rows generalizing e with
  | nil => rfl
  | cons row rows ih => rw [lineCodes, List.length_cons, ih, List.length_cons]

theorem flushAccepted_iff {e : Encoder} {width : Nat} {pending : List (List Bool)}
    (h : Buffered e width pending) : e.FlushAccepted ↔ FlushOk e pending := by
  rw [Encoder.FlushAccepted, FlushOk, Encoder.rowBuffer, rowBuffer_all_zero h]

/-! ## A page whose flushes go through -/

/-- The end of a page that returns 0 has written what was pending. -/
theorem endPage_inPage {e : Encoder} {copies : UInt16} {out : Bytes} {width n : Nat}
    {pending : List (List Bool)} (h : InPage e copies out width n pending)
    (hend : (qpdlEndPage e).1 = 0) :
    (pending ≠ [] → n ≤ 255) ∧
      (qpdlEndPage e).2.sink.accepted =
        out ++ bandRecords width n pending ++ writeEndPage copies := by
  have hclose (e : Encoder) (hzero : (closePage e).1 = 0) :
      (closePage e).2.sink.accepted = e.sink.accepted ++ writeEndPage e.job.copies := by
    have hanswer : e.pageClosed.sink.answer e.pageClosed.sink.calls = 0 := hzero
    rw [closePage, Encoder.emit_of_answer _ hanswer]
    rfl
  rw [endPage_eq h.inPage h.lines_eq] at hend ⊢
  by_cases hnil : pending = []
  · rw [if_pos hnil] at hend ⊢
    rw [hclose e hend, hnil, bandRecords_nil, List.append_nil, h.accepted, h.copies_eq]
    exact ⟨fun hne => absurd rfl hne, rfl⟩
  · rw [if_neg hnil] at hend ⊢
    have hflushOk := (flushBand_ok_iff h.toBuffered).mp (orReturn_eq_zero.mp hend).1
    obtain ⟨e1, hflush, -, hw, -⟩ := flushBand_ok h.toBuffered hflushOk
    rw [hflush, orReturn_ok] at hend ⊢
    rw [hclose e1 hend, hw.accepted_eq, hw.job_eq, h.accepted, h.copies_eq, h.bandNumber_eq,
      bandRecords_last hnil h.pending_le]
    exact ⟨fun _ => h.bandNumber_eq ▸ hflushOk.1, rfl⟩

/-- Behind lines under the condition, an end of page that returns 0 leaves all
rows in the stream. -/
theorem run_lines {e : Encoder} {copies : UInt16} {out : Bytes} {width n : Nat}
    {pending : List (List Bool)} (h : InPage e copies out width n pending)
    (hlt : pending.length < 128) {rows : List Bytes}
    (hrows : ∀ row ∈ rows, (width + 7) / 8 ≤ row.length)
    (hok : Run.Every lineStep LineOk e rows)
    (hend : (qpdlEndPage (Run.run lineStep e rows)).1 = 0) (hn : n ≤ 256) :
    n * 128 + pending.length + rows.length ≤ 256 * 128 ∧
      (qpdlEndPage (Run.run lineStep e rows)).2.sink.accepted =
        out ++ bandRecords width n (pending ++ rows.map (rowBits width)) ++ writeEndPage copies := by
  induction rows generalizing e out n pending with
  | nil =>
    obtain ⟨hle, hout⟩ := endPage_inPage h hend
    refine ⟨?_, by simpa using hout⟩
    by_cases hnil : pending = []
    · rw [hnil]
      simp
      omega
    · have := hle hnil
      rw [List.length_nil]
      omega
  | cons row rows ih =>
    have hrow := hrows row List.mem_cons_self
    have hbuf := bufferLine_buffered h.toBuffered h.lines_eq hrow
    obtain ⟨e', heq, hstep⟩ :=
      writeLine_inPage h hrow fun hfull => (flushAccepted_iff hbuf).mp (hok.1 hfull)
    obtain rfl : lineStep e row = e' := congrArg Prod.snd heq
    have hrest := fun r hr => hrows r (List.mem_cons_of_mem row hr)
    rw [Run.run_cons] at hend ⊢
    rw [List.map_cons, List.append_cons, List.length_cons]
    split_ifs at hstep with hmore
    · obtain ⟨hle, hout⟩ := ih hstep (by simpa using hmore) hrest hok.2 hend hn
      refine ⟨?_, hout⟩
      rw [List.length_append, List.length_singleton] at hle
      omega
    · obtain ⟨hn255, hin⟩ := hstep
      obtain ⟨hle, hout⟩ := ih hin (by simp) hrest hok.2 hend (by omega)
      refine ⟨?_, ?_⟩
      · rw [List.length_nil] at hle
        omega
      · rw [hout, List.nil_append, bandRecords_group (by simp; omega)]
        simp

/-- A page that was opened. -/
theorem beginPage_inPage {e : Encoder} {width : Nat} {workspace : Option Bytes}
    (h : (qpdlBeginPage e width workspace).1 = 0) :
    ∃ out, InPage (qpdlBeginPage e width workspace).2 e.job.copies out width 0 [] := by
  unfold qpdlBeginPage at h ⊢
  split_ifs at h ⊢ with hstate hwidth
  · exact absurd (show ESTATE = 0 from h) (by decide)
  · exact absurd (show ERANGE = 0 from h) (by decide)
  · cases workspace with
    | none => exact absurd (show EINVAL = 0 from h) (by decide)
    | some workspace =>
      dsimp only at h ⊢
      split_ifs at h ⊢ with hroom
      · exact absurd (show EINVAL = 0 from h) (by decide)
      · have hanswer : (e.openPage width workspace).sink.answer
            (e.openPage width workspace).sink.calls = 0 := h
        have hopen := openPage_buffered e (Nat.pos_of_ne_zero fun h0 => hwidth (.inl h0))
          (by omega) (Nat.not_lt.mp hroom)
        rw [Encoder.emit_of_answer _ hanswer]
        exact ⟨_, hopen.sent _, rfl, rfl, rfl, rfl, rfl⟩

/-- Whatever the sink answers, a page on which no flush inside
`m2022_qpdl_write_line` is refused loses no line. -/
theorem lines_kept (e : Encoder) (width : Nat) (workspace : Option Bytes) (rows : List Bytes)
    (hbegin : (qpdlBeginPage e width workspace).1 = 0)
    (hrows : ∀ row ∈ rows, (width + 7) / 8 ≤ row.length)
    (hok : Run.Every lineStep LineOk (qpdlBeginPage e width workspace).2 rows) :
    LinesKept (qpdlBeginPage e width workspace).2 width rows := by
  obtain ⟨out, hin⟩ := beginPage_inPage hbegin
  intro hend y hcode x hx
  obtain ⟨hle, hout⟩ := run_lines hin (by simp) hrows hok hend (by omega)
  have hy : y < rows.length := by
    rw [← length_lineCodes (qpdlBeginPage e width workspace).2]
    exact (List.getElem?_eq_some_iff.mp hcode).1
  let p : Page := {
    width := width
    width_pos := hin.pos
    width_le := hin.le
    workspace := List.replicate (qpdlEncoderWorkspaceBytes width) 0
    room := by rw [List.length_replicate]
    rows := rows
    rows_le := by simpa using hle
    row_bytes := hrows }
  have hpixel : p.pixel y x = Bits.get (rows.getD y []) x := by
    rw [Page.pixel, decide_eq_true hx, Bool.true_and]
  rw [hout, hin.accepted, List.append_assoc, List.drop_left, ← hpixel]
  exact bitmapOf_bandRecords p _ y x

/-! ## A page of eight pixels -/

/-- An encoder between begin of job and page, over a sink with these answers. -/
def openJob (answer : Nat → Int) : Encoder :=
  { job := qpdlJobDefault, sink := { answer := answer }, inJob := true }

/-- The workspace of a page of eight pixels. -/
def smallWorkspace : Bytes := List.replicate 12460 0

theorem beginPage_small (answer : Nat → Int) (h : answer 0 = 0) :
    qpdlBeginPage (openJob answer) 8 (some smallWorkspace) =
      (OK, ((openJob answer).openPage 8 smallWorkspace).sent
        (writePageHeader qpdlJobDefault.pageHeader)) := by
  have hroom : ¬smallWorkspace.length < qpdlEncoderWorkspaceBytes 8 := by
    rw [smallWorkspace, List.length_replicate]
    decide
  rw [← Encoder.emit_of_answer ((openJob answer).openPage 8 smallWorkspace) h, qpdlBeginPage]
  simp only [if_neg hroom]
  rfl

/-- Lines that complete no band are buffered, without a call to the sink. -/
theorem run_buffered {e : Encoder} {copies : UInt16} {out : Bytes} {width n : Nat}
    {pending : List (List Bool)} (h : InPage e copies out width n pending) {rows : List Bytes}
    (hrows : ∀ row ∈ rows, (width + 7) / 8 ≤ row.length)
    (hlt : pending.length + rows.length < 128) :
    InPage (Run.run lineStep e rows) copies out width n (pending ++ rows.map (rowBits width)) ∧
      (Run.run lineStep e rows).sink = e.sink := by
  induction rows generalizing e pending with
  | nil => exact ⟨by simpa using h, rfl⟩
  | cons row rows ih =>
    rw [List.length_cons] at hlt
    have hlines := h.lines_eq
    obtain ⟨e', heq, hstep⟩ :=
      writeLine_inPage h (hrows row List.mem_cons_self) fun hfull => by omega
    obtain rfl : lineStep e row = e' := congrArg Prod.snd heq
    rw [if_pos (by omega)] at hstep
    have hsink : (lineStep e row).sink = e.sink := by
      rw [lineStep, writeLine_eq h.inPage, if_neg (by omega)]
      rfl
    obtain ⟨hin, hs⟩ := ih hstep (fun r hr => hrows r (List.mem_cons_of_mem row hr))
      (by rw [List.length_append, List.length_singleton]; omega)
    rw [Run.run_cons, List.map_cons, List.append_cons]
    exact ⟨hin, hs.trans hsink⟩

/-! ## Flushes that are let through -/

/-- On a page of at most 256 bands a sink that accepts everything lets every
flush through. -/
theorem lineOk_of_soFar {e : Encoder} {job : QpdlJob} {base : Bytes} {width : Nat}
    {bits : List (List Bool)} (h : PageSoFar e job base width bits)
    (hlt : bits.length < 256 * 128) (row : Bytes) : LineOk e row := by
  obtain ⟨n, sent, pending, rfl, hsent, hpending, hmid⟩ := h
  intro hfull
  rw [List.length_append] at hlt
  refine ⟨?_, .inr ⟨hmid.accepts _, hmid.accepts _⟩⟩
  rw [show (e.bufferLine row).bandNumber = n from hmid.bandNumber_eq]
  omega

theorem every_lineOk_of_soFar {e : Encoder} {job : QpdlJob} {base : Bytes} {width : Nat}
    {bits : List (List Bool)} (h : PageSoFar e job base width bits) {rows : List Bytes}
    (hrows : ∀ row ∈ rows, (width + 7) / 8 ≤ row.length)
    (hle : bits.length + rows.length ≤ 256 * 128) : Run.Every lineStep LineOk e rows := by
  induction rows generalizing e bits with
  | nil => trivial
  | cons row rows ih =>
    rw [List.length_cons] at hle
    obtain ⟨e', hwrite, hsofar⟩ := writeLine_soFar h (by omega) (hrows row List.mem_cons_self)
    obtain rfl : lineStep e row = e' := congrArg Prod.snd hwrite
    exact ⟨lineOk_of_soFar h (by omega) row,
      ih hsofar (fun r hr => hrows r (List.mem_cons_of_mem row hr))
        (by rw [List.length_append, List.length_singleton]; omega)⟩

/-- On a page of 130 black lines the 128th completes a band, whose flush goes
through, and two lines are left for the end of the page. -/
theorem lines_kept_two_bands :
    (Run.run lineStep (qpdlBeginPage (openJob fun _ => 0) 8 (some smallWorkspace)).2
        (blackRows 127)).lines % 128 = 127 ∧
      LinesKept (qpdlBeginPage (openJob fun _ => 0) 8 (some smallWorkspace)).2 8
        (blackRows 130) := by
  have hbegin : (qpdlBeginPage (openJob fun _ => 0) 8 (some smallWorkspace)).1 = 0 := by
    rw [beginPage_small (fun _ => 0) rfl]
  constructor
  · obtain ⟨out, hin⟩ := beginPage_inPage hbegin
    rw [(run_buffered hin (blackRows_bytes 127) (by rw [length_blackRows]; decide)).1.lines_eq,
      List.nil_append, List.length_map, length_blackRows]
  · have hidle : Idle (openJob fun _ => 0) qpdlJobDefault [] :=
      ⟨rfl, rfl, rfl, fun _ => rfl, rfl⟩
    have hroom : qpdlEncoderWorkspaceBytes 8 ≤ smallWorkspace.length := by
      rw [smallWorkspace, List.length_replicate]
      decide
    obtain ⟨e, heq, hsofar⟩ := beginPage_soFar hidle (by decide) (by decide) hroom
    apply lines_kept (openJob fun _ => 0) 8 (some smallWorkspace) _ hbegin (blackRows_bytes 130)
    rw [heq]
    exact every_lineOk_of_soFar hsofar (blackRows_bytes 130) (by rw [length_blackRows]; decide)

/-! ## A flush that is refused -/

/-- A flush whose first write is refused returns the sink's answer and leaves
page and line counter as they were. -/
theorem flushBand_refused {e : Encoder} {width : Nat} {pending : List (List Bool)}
    (h : Buffered e width pending) (hn : e.bandNumber ≤ 255) (hw : isWhite pending = false)
    (hno : e.sink.answer e.sink.calls ≠ 0) :
    (flushBand e).2.inPage = e.inPage ∧ (flushBand e).2.lines = e.lines ∧
      (flushBand e).2.job = e.job ∧ (flushBand e).2.sink.answer = e.sink.answer ∧
      (flushBand e).2.sink.calls = e.sink.calls + 1 ∧
      (flushBand e).2.sink.accepted = e.sink.accepted := by
  obtain ⟨e1, -, he1, -, heq⟩ := flushBand_black h hn hw
  have hsend : sendBand e1 (bandPayload width (bandRows width pending)).length =
      e1.emit (writeBandHeader ⟨UInt8.ofNat e1.bandNumber, e1.bandWidth, 128, COMPRESSION_0X11,
        UInt32.ofNat (bandPayload width (bandRows width pending)).length⟩) := by
    rw [sendBand, orReturn, if_pos]
    rw [he1]
    exact hno
  rw [heq, hsend, he1, Encoder.emit, Sink.write]
  simp [hno]

theorem bandsOf_endPage (copies : UInt16) : bandsOf (writeEndPage copies) = [] := by
  have := walkRecords_record 0 (.endPage copies) []
  rw [List.append_nil, walkRecords] at this
  exact congrArg (fun r => r.events.filterMap Event.band?) this

/-- When the sink refuses the band of the first 128 lines and nothing after it,
the page ends with 0 and without a band. -/
theorem endPage_refused {e : Encoder} {copies : UInt16} {out : Bytes} {width : Nat}
    (h : InPage e copies out width 0 []) (rows : List Bytes) (last : Bytes)
    (hlen : rows.length = 127) (hrows : ∀ row ∈ rows, (width + 7) / 8 ≤ row.length)
    (hlast : (width + 7) / 8 ≤ last.length) (hblack : isWhite [rowBits width last] = false)
    (hno : e.sink.answer e.sink.calls ≠ 0) (hyes : e.sink.answer (e.sink.calls + 1) = 0) :
    (qpdlEndPage (Run.run lineStep e (rows ++ [last]))).1 = 0 ∧
      bandsOf ((qpdlEndPage (Run.run lineStep e (rows ++ [last]))).2.sink.accepted.drop
        e.sink.accepted.length) = [] := by
  -- the first 127 lines are buffered
  obtain ⟨hin, hsink⟩ := run_buffered h hrows (by rw [hlen]; decide)
  have hrun : Run.run lineStep e (rows ++ [last]) = lineStep (Run.run lineStep e rows) last := by
    rw [Run.run_append]
    rfl
  rw [hrun]
  generalize Run.run lineStep e rows = f at hin hsink
  have hfull : f.lines % 128 = 127 := by
    rw [hin.lines_eq, List.nil_append, List.length_map, hlen]
  -- the last one completes the band, whose flush is refused
  have hbuf := bufferLine_buffered hin.toBuffered hin.lines_eq hlast
  have hbufsink : (f.bufferLine last).sink = e.sink := hsink
  have hstep : lineStep f last = (flushBand (f.bufferLine last)).2 := by
    rw [lineStep, writeLine_eq hin.inPage, if_pos hfull]
  obtain ⟨hpage, hlines, hjob, hanswer, hcalls, haccepted⟩ := flushBand_refused hbuf
    (by rw [show (f.bufferLine last).bandNumber = 0 from hin.bandNumber_eq]; decide)
    (by rw [isWhite, List.all_append, ← isWhite, ← isWhite, hblack, Bool.and_false])
    (by rw [hbufsink]; exact hno)
  rw [← hstep] at hpage hlines hjob hanswer hcalls haccepted
  -- the line counter sits on a multiple of 128, so the page closes without a flush
  have hlines' : (lineStep f last).lines % 128 = ([] : List (List Bool)).length := by
    rw [hlines, show (f.bufferLine last).lines = u32 (f.lines + 1) from rfl, u32_succ_mod, hfull]
    rfl
  have hyes' : (lineStep f last).pageClosed.sink.answer (lineStep f last).pageClosed.sink.calls =
      0 := by
    change (lineStep f last).sink.answer (lineStep f last).sink.calls = 0
    rw [hanswer, hcalls, hbufsink]
    exact hyes
  rw [endPage_eq (hpage.trans hin.inPage) hlines', if_pos rfl, closePage,
    Encoder.emit_of_answer _ hyes']
  refine ⟨rfl, ?_⟩
  rw [← hbufsink, ← haccepted]
  change bandsOf (((lineStep f last).sink.accepted ++ _).drop _) = []
  rw [List.drop_left, bandsOf_endPage]

/-- The sink refuses its second call, the first write of the first band. -/
def refuseSecond (n : Nat) : Int := if n = 1 then -1 else 0

/-- The sink refuses the band that 128 black rows complete, and the first row,
taken with 0, is white in the stream. -/
theorem lines_lost_of_rows (rows : List Bytes) (hlen : rows.length = 126)
    (hblack : ∀ row ∈ rows, row = [0x80]) :
    ¬LinesKept (qpdlBeginPage (openJob refuseSecond) 8 (some smallWorkspace)).2 8
      ([0x80] :: rows ++ [[0x80]]) := by
  have hbegin := beginPage_small refuseSecond rfl
  intro hkept
  obtain ⟨out, hin⟩ := beginPage_inPage (show (qpdlBeginPage (openJob refuseSecond) 8
    (some smallWorkspace)).1 = 0 by rw [hbegin])
  have hsink : (qpdlBeginPage (openJob refuseSecond) 8 (some smallWorkspace)).2.sink.calls = 1 ∧
      (qpdlBeginPage (openJob refuseSecond) 8 (some smallWorkspace)).2.sink.answer =
        refuseSecond := by
    rw [hbegin]
    exact ⟨rfl, rfl⟩
  generalize (qpdlBeginPage (openJob refuseSecond) 8 (some smallWorkspace)).2 = e at hin hsink hkept
  have hrows : ∀ row ∈ [0x80] :: rows, (8 + 7) / 8 ≤ row.length := by
    intro row hrow
    rcases List.mem_cons.mp hrow with rfl | hrow
    · decide
    · rw [hblack row hrow]
      decide
  obtain ⟨hend, hbands⟩ := endPage_refused hin ([0x80] :: rows) [0x80]
    (by rw [List.length_cons, hlen]) hrows (by decide) (by decide)
    (by rw [hsink.1, hsink.2]; decide) (by rw [hsink.1, hsink.2]; decide)
  have hcode : (lineCodes e ([0x80] :: rows ++ [[0x80]]))[0]? = some 0 := by
    rw [List.cons_append, lineCodes, List.getElem?_cons_zero, writeLine_eq hin.inPage,
      if_neg (by rw [hin.lines_eq]; decide)]
  have hbit := hkept hend 0 hcode 0 (by decide)
  rw [hbands, List.cons_append, List.getD_cons_zero] at hbit
  exact absurd hbit (by decide)

/-- A page of 128 black lines whose band is refused, and that ends with 0: the
first line was taken with 0, and the stream has no band. -/
theorem lines_lost_refused :
    (qpdlBeginPage (openJob refuseSecond) 8 (some smallWorkspace)).1 = 0 ∧
      ¬LinesKept (qpdlBeginPage (openJob refuseSecond) 8 (some smallWorkspace)).2 8
        ([0x80] :: List.replicate 126 [0x80] ++ [[0x80]]) :=
  ⟨by rw [beginPage_small refuseSecond rfl],
    lines_lost_of_rows (List.replicate 126 [0x80]) List.length_replicate
      fun _ h => List.eq_of_mem_replicate h⟩

end Airbridge.Qpdl
