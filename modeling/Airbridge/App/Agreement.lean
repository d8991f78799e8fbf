import Airbridge.App.Session
import Airbridge.Qpdl.LineLoss

/-!
# What is open

The application and the encoder both remember whether a job and a page are
open, and set their flags on different sides of writes that may be refused.
`m2022_qpdl_begin_job` and `m2022_qpdl_begin_page` set theirs before they
write, and `cb_rendpage` clears its own before the last band is flushed.

`agree_run` follows the callbacks over a device that may refuse any write.  As
long as these writes are taken, both sides agree, and the end of the job
reaches the device.
-/

namespace Airbridge.App

open Airbridge.Qpdl Memory

/-- The application and the encoder agree on what is open. -/
structure Agree (j : JobT) : Prop where
  page : j.pageOpen = j.enc.inPage
  job : j.jobOpen = j.enc.inJob

/-! ## The writes in question -/

/-- The device takes the ten writes of the envelope, if `cb_rstartjob` gets to
them. -/
def StartjobAccepted (host : Host) (options : PrOptions) (device : Sink) : Prop :=
  ∀ m, mediaByPwg options.mediaSizeName = some m → (qpdlJob host m options).refused = false →
    ∀ k < 10, device.answer (device.calls + k) = 0

/-- A page that `cb_rstartpage` hands to the encoder: its raster has a format
of the printer, the engine's resolution and at least one pixel, and there is
memory for it. -/
structure Printable (j : JobT) (h : CupsHeader) : Prop where
  format : h.pixelFormat ≠ none
  resolution : h.hwResolution = (600, 600)
  width : 0 < h.cupsWidth
  height : 0 < h.cupsHeight
  memory : (pageBuffers j h.cupsWidth
    (jobmapGeometry j.media 600 h.cupsWidth h.cupsHeight).2.width).1 = true

/-- The flush at the end of a page, if lines are pending, is let through. -/
def EndAccepted (e : Encoder) : Prop := e.lines % 128 ≠ 0 → e.FlushAccepted

/-- The writes at the end of a page: its last band and its record. -/
def endPageWrites (e : Encoder) : Nat :=
  if e.lines % 128 ≠ 0 ∧ e.rowBuffer.all (· == 0) = false then 3 else 1

/-- The writes of a callback that the agreement depends on are taken. -/
def CallAccepted (j : JobT) : Callback → Prop
  | .startPage options =>
    j.jobOpen = true → Printable j options.header → j.enc.sink.answer j.enc.sink.calls = 0
  | .writeLine _ _ => True
  | .endPage => EndAccepted j.enc

/-- At the end of the job, the flush of a page that is still open is let
through, and the device takes the end-of-job byte. -/
structure EndjobAccepted (j : JobT) : Prop where
  flush : j.pageOpen = true → EndAccepted j.enc
  endJob : j.jobOpen = true → j.enc.sink.answer
    (j.enc.sink.calls + if j.pageOpen then endPageWrites j.enc else 0) = 0

/-! ## Encoder calls -/

/-- A flush that is let through returns 0; it writes two pieces, or none when
the rows are white. -/
theorem flushBand_accepted {e : Encoder} {width : Nat} (h : Geometry e width)
    (hok : e.FlushAccepted) :
    ∃ e' written, flushBand e = (OK, e') ∧ Kept e e' ∧
      e'.sink.offered = e.sink.offered ++ written ∧
      e'.sink.calls = e.sink.calls + if e.rowBuffer.all (· == 0) = false then 2 else 0 := by
  have hkept := flushBand_kept e
  cases hw : e.rowBuffer.all (· == 0) with
  | true =>
    rw [flushBand_blank hok.1 hw] at hkept ⊢
    exact ⟨e.skipped, [], rfl, hkept, (List.append_nil _).symm, rfl⟩
  | false =>
    obtain ⟨h0, h1⟩ := hok.2.resolve_left (by rw [hw]; decide)
    obtain ⟨e1, hgeom, -, he1, hload, hflush⟩ := flushBand_encoded h hok.1 hw
    have hsend := sendBand_accepted hgeom hload (by rw [he1]; exact h0) (by rw [he1]; exact h1)
    rw [hflush, hsend] at hkept ⊢
    refine ⟨_, [writeBandHeader (bandHeader width e1.bandNumber
      (bandPayload width e.rowBuffer)), bandPayload width e.rowBuffer], rfl, hkept, ?_, ?_⟩
    · have hoffered : e1.sink.offered = e.sink.offered := by rw [he1]
      rw [← hoffered]
      exact List.append_assoc e1.sink.offered [_] [_]
    · have hcalls : e1.sink.calls = e.sink.calls := by rw [he1]
      rw [← hcalls]
      rfl

/-- The end of a page whose flush is let through closes the page, whatever
becomes of its record. -/
theorem endPage_closed {e : Encoder} {width : Nat} (h : Geometry e width) (hin : e.inPage = true)
    (hok : EndAccepted e) :
    ∃ written, (qpdlEndPage e).2.inPage = false ∧ (qpdlEndPage e).2.inJob = e.inJob ∧
      (qpdlEndPage e).2.sink.answer = e.sink.answer ∧
      (qpdlEndPage e).2.sink.calls = e.sink.calls + endPageWrites e ∧
      (qpdlEndPage e).2.sink.offered = e.sink.offered ++ written ++ [writeEndPage e.job.copies] := by
  unfold qpdlEndPage endPageWrites
  rw [hin]
  by_cases hlines : e.lines % 128 ≠ 0
  · obtain ⟨e', written, hflush, hkept, hoffered, hcalls⟩ := flushBand_accepted h (hok hlines)
    refine ⟨written, ?_⟩
    rw [if_neg (by decide), if_pos hlines, hflush, orReturn_ok]
    unfold closePage
    refine ⟨rfl, hkept.inJob_eq, hkept.answer_eq, ?_, ?_⟩
    · show e'.sink.calls + 1 = _
      rw [hcalls]
      simp only [hlines, ne_eq, not_false_eq_true, true_and]
      split_ifs <;> rfl
    · show e'.sink.offered ++ [writeEndPage e'.job.copies] = _
      rw [hoffered, hkept.job_eq]
  · refine ⟨[], ?_⟩
    rw [if_neg (by decide), if_neg hlines, if_neg (fun hboth => hlines hboth.1), List.append_nil]
    exact ⟨rfl, rfl, rfl, rfl, rfl⟩

/-- `m2022_qpdl_begin_page` leaves the job alone. -/
theorem beginPage_inJob (e : Encoder) (width : Nat) (workspace : Option Bytes) :
    (qpdlBeginPage e width workspace).2.inJob = e.inJob := by
  unfold qpdlBeginPage
  split_ifs
  · rfl
  · rfl
  · cases workspace with
    | none => rfl
    | some workspace =>
      dsimp only
      split_ifs <;> rfl

/-- When the device takes the page header, only a page that is not begun at
all fails. -/
theorem beginPage_failed {e : Encoder} {width : Nat} {workspace : Option Bytes}
    (hanswer : e.sink.answer e.sink.calls = 0) (hrc : (qpdlBeginPage e width workspace).1 ≠ 0) :
    (qpdlBeginPage e width workspace).2 = e := by
  unfold qpdlBeginPage at hrc ⊢
  split_ifs at hrc ⊢
  · rfl
  · rfl
  · cases workspace with
    | none => rfl
    | some workspace =>
      dsimp only at hrc ⊢
      split_ifs at hrc ⊢
      · rfl
      · exact absurd hanswer hrc

/-! ## One callback each -/

/-- Behind every callback: both sides agree, PAPPL knows whether a page is
open, and the encoder is set up for an open page. -/
structure InStep (s : Session) : Prop extends Agree s.job where
  inPage_eq : s.inPage = s.job.pageOpen
  geometry : s.job.pageOpen = true → ∃ width, Geometry s.job.enc width

theorem startjob_inStep {host : Host} (heap : Heap UInt8) {options : PrOptions} {device : Sink}
    (hok : StartjobAccepted host options device) :
    InStep (Session.start host heap options device) := by
  have hclosed : ¬false = true := by decide
  cases hmedia : mediaByPwg options.mediaSizeName with
  | none =>
    unfold Session.start cbRstartjob
    rw [hmedia]
    exact ⟨⟨rfl, rfl⟩, rfl, fun h => absurd h hclosed⟩
  | some m =>
    cases hrefused : (qpdlJob host m options).refused with
    | true =>
      have hbegin : qpdlBeginJob (zeroEncoder device) (qpdlJob host m options) device =
          (EINVAL, zeroEncoder device) := by
        unfold qpdlBeginJob
        rw [hrefused]
        rfl
      unfold Session.start cbRstartjob
      dsimp only
      rw [hmedia]
      dsimp only
      rw [hbegin]
      exact ⟨⟨rfl, rfl⟩, rfl, fun h => absurd h hclosed⟩
    | false =>
      obtain ⟨-, hjob, hpage, -, -, hopen⟩ :=
        startjob_started heap hmedia hrefused (hok m hmedia hrefused)
      refine ⟨⟨hpage.trans hopen.inPage.symm, hjob.trans hopen.inJob.symm⟩, hpage.symm,
        fun h => absurd (hpage.symm.trans h) hclosed⟩

/-- A page that gets to the encoder is one of those. -/
theorem printable_of_prepare {j : JobT} {h : CupsHeader} (hok : (preparePage j h).1 = true) :
    Printable j h := by
  obtain ⟨⟨fmt, hfmt⟩, hres, hw, hh⟩ := of_preparePage hok
  refine ⟨by rw [hfmt]; exact Option.some_ne_none fmt, hres, hw, hh, ?_⟩
  let j1 := { j with
    linesIn := 0
    rasterWidth := h.cupsWidth
    fmt := fmt
    geo := (jobmapGeometry j.media 600 h.cupsWidth h.cupsHeight).2 }
  have hbuffers : (pageBuffers j1 h.cupsWidth j1.geo.width).1 = true := by
    unfold preparePage at hok
    rw [hfmt] at hok
    dsimp only at hok
    split_ifs at hok
    unfold pageMemory at hok
    by_contra hno
    rw [Bool.not_eq_true] at hno
    dsimp only at hok
    rw [hno] at hok
    exact absurd (show false = true from hok) (by decide)
  rw [← hbuffers]
  unfold pageBuffers
  dsimp only
  split_ifs <;> rfl

theorem startpage_inStep {s : Session} (h : InStep s) {options : PrOptions}
    (hin : s.inPage = false) (hok : CallAccepted s.job (.startPage options)) :
    InStep (s.step (.startPage options)) := by
  have hclosed : s.job.pageOpen = false := h.inPage_eq.symm.trans hin
  have hsame := preparePage_sameJob s.job options.header
  unfold Session.step cbRstartpage
  dsimp only
  cases hjob : s.job.jobOpen with
  | false =>
    exact ⟨⟨h.page, h.job⟩, hclosed.symm,
      fun hopen => absurd (hclosed.symm.trans hopen) (by decide)⟩
  | true =>
    cases hprepare : (preparePage s.job options.header).1 with
    | false =>
      have hpage := hsame.pageOpen_eq.trans hclosed
      refine ⟨⟨?_, ?_⟩, hpage.symm, fun hopen => absurd (hpage.symm.trans hopen) (by decide)⟩
      · show (preparePage s.job options.header).2.pageOpen = _
        rw [hsame.pageOpen_eq, h.page, ← hsame.enc_eq]
        rfl
      · show (preparePage s.job options.header).2.jobOpen = _
        rw [hsame.jobOpen_eq, h.job, ← hsame.enc_eq]
        rfl
    | true =>
      have hanswer := hok hjob (printable_of_prepare hprepare)
      have hinJob := beginPage_inJob s.job.enc (preparePage s.job options.header).2.geo.width
        (preparePage s.job options.header).2.workspace
      have hjobOpen := hsame.jobOpen_eq.trans h.job
      have hpage := hsame.pageOpen_eq.trans hclosed
      simp only [Bool.not_true, Bool.false_eq_true, if_false]
      rw [hsame.enc_eq]
      by_cases hrc : (qpdlBeginPage s.job.enc (preparePage s.job options.header).2.geo.width
          (preparePage s.job options.header).2.workspace).1 = 0
      · obtain ⟨out, hon⟩ := beginPage_inPage hrc
        rw [if_neg (not_not.mpr hrc)]
        exact ⟨⟨hon.inPage.symm, hjobOpen.trans hinJob.symm⟩, rfl, fun _ => ⟨_, hon.toGeometry⟩⟩
      · rw [if_pos hrc]
        refine ⟨⟨?_, hjobOpen.trans hinJob.symm⟩, hpage.symm,
          fun hopen => absurd (hpage.symm.trans hopen) (by decide)⟩
        show (preparePage s.job options.header).2.pageOpen = (qpdlBeginPage _ _ _).2.inPage
        rw [beginPage_failed hanswer hrc, hsame.pageOpen_eq]
        exact h.page

theorem writeline_inStep {s : Session} (h : InStep s) (y : Nat) (line : Bytes) :
    InStep (s.step (.writeLine y line)) := by
  have hkept := writeLine_kept s.job.enc (convertLine s.job y line).bits
  have hpage := h.page.trans hkept.inPage_eq.symm
  have hjob := h.job.trans hkept.inJob_eq.symm
  have hgeometry (hopen : s.job.pageOpen = true) : ∃ width,
      Geometry (qpdlWriteLine s.job.enc (convertLine s.job y line).bits).2 width := by
    obtain ⟨width, hg⟩ := h.geometry hopen
    exact ⟨width, hkept.geometry hg⟩
  unfold Session.step cbRwriteline
  dsimp only
  by_cases hopen : s.job.pageOpen = true
  · by_cases hy : s.job.geo.covers y = true
    · rw [hopen, hy]
      simp only [Bool.not_true, Bool.false_eq_true, if_false]
      split_ifs
      · exact ⟨⟨hpage, hjob⟩, h.inPage_eq, hgeometry⟩
      · exact ⟨⟨hpage, hjob⟩, h.inPage_eq, hgeometry⟩
    · rw [Bool.not_eq_true] at hy
      rw [hopen, hy]
      exact ⟨h.toAgree, h.inPage_eq, h.geometry⟩
  · rw [Bool.not_eq_true] at hopen
    rw [hopen]
    exact ⟨h.toAgree, h.inPage_eq, h.geometry⟩

theorem endpage_inStep {s : Session} (h : InStep s) (hin : s.inPage = true)
    (hok : EndAccepted s.job.enc) : InStep (s.step .endPage) := by
  have hopen : s.job.pageOpen = true := h.inPage_eq.symm.trans hin
  obtain ⟨width, hg⟩ := h.geometry hopen
  obtain ⟨-, hclosed, hinJob, -⟩ := endPage_closed hg (h.page.symm.trans hopen) hok
  unfold Session.step cbRendpage
  rw [hopen]
  exact ⟨⟨hclosed.symm, h.job.trans hinJob.symm⟩, rfl,
    fun hopen => absurd (show false = true from hopen) (by decide)⟩

theorem step_inStep (s : Session) (c : Callback) (h : InStep s)
    (hc : InOrder s c ∧ CallAccepted s.job c) : InStep (s.step c) := by
  cases c with
  | startPage options => exact startpage_inStep h hc.1 hc.2
  | writeLine y line => exact writeline_inStep h y line
  | endPage => exact endpage_inStep h hc.1 hc.2

/-! ## The end of the job -/

/-- With nothing open but the job, its end reaches the device. -/
theorem endJob_offered {e : Encoder} (hjob : e.inJob = true) (hpage : e.inPage = false)
    (hok : e.sink.answer e.sink.calls = 0) :
    (qpdlEndJob e).2.inJob = false ∧ (qpdlEndJob e).2.inPage = false ∧
      (qpdlEndJob e).2.sink.offered = e.sink.offered ++ [[REC_END_JOB], uel] := by
  unfold qpdlEndJob
  rw [hjob, hpage, if_neg (by decide), Encoder.emit_of_answer e.jobClosed hok, orReturn_ok]
  exact ⟨rfl, hpage, List.append_assoc e.sink.offered [_] [_]⟩

/-- A page that is open at the end of the job is closed and its record
offered. -/
theorem cancelPage_agree {s : Session} (h : InStep s) (hok : EndjobAccepted s.job) :
    ∃ written, Agree (cancelPage s.job).2 ∧ (cancelPage s.job).2.pageOpen = false ∧
      (cancelPage s.job).2.jobOpen = s.job.jobOpen ∧
      (s.job.jobOpen = true → (cancelPage s.job).2.enc.sink.answer
        (cancelPage s.job).2.enc.sink.calls = 0) ∧
      (cancelPage s.job).2.enc.sink.offered = s.job.enc.sink.offered ++
        if s.job.pageOpen then written ++ [writeEndPage s.job.enc.job.copies] else [] := by
  have hend := hok.endJob
  unfold cancelPage
  cases hopen : s.job.pageOpen with
  | false =>
    rw [hopen] at hend
    exact ⟨[], ⟨h.page, h.job⟩, hopen, rfl, hend, (List.append_nil _).symm⟩
  | true =>
    rw [hopen] at hend
    obtain ⟨width, hg⟩ := h.geometry hopen
    obtain ⟨written, hclosed, hinJob, hanswer, hcalls, hoffered⟩ :=
      endPage_closed hg (h.page.symm.trans hopen) (hok.flush hopen)
    rw [if_pos rfl]
    unfold cbRendpage
    rw [hopen]
    refine ⟨written, ⟨hclosed.symm, h.job.trans hinJob.symm⟩, rfl, rfl, fun hjob => ?_, ?_⟩
    · show (qpdlEndPage s.job.enc).2.sink.answer (qpdlEndPage s.job.enc).2.sink.calls = 0
      rw [hanswer, hcalls]
      exact hend hjob
    · show (qpdlEndPage s.job.enc).2.sink.offered = _
      rw [hoffered, List.append_assoc]
      rfl

theorem endjob_agree {s : Session} (h : InStep s) (hok : EndjobAccepted s.job) :
    Agree (cbRendjob s.job).2 ∧ (s.job.jobOpen = true → ∃ written,
      (cbRendjob s.job).2.enc.sink.offered = s.job.enc.sink.offered ++
        (if s.job.pageOpen then written ++ [writeEndPage s.job.enc.job.copies] else []) ++
        [[REC_END_JOB], uel]) := by
  obtain ⟨written, hagree, hclosed, hjob, hanswer, hoffered⟩ := cancelPage_agree h hok
  unfold cbRendjob
  dsimp only
  cases hopen : s.job.jobOpen with
  | false =>
    rw [hjob, hopen]
    exact ⟨hagree, fun hno => absurd hno (by decide)⟩
  | true =>
    obtain ⟨hinJob, hinPage, hsent⟩ := endJob_offered (hagree.job.symm.trans (hjob.trans hopen))
      (hagree.page.symm.trans hclosed) (hanswer hopen)
    rw [hjob, hopen, if_pos rfl]
    refine ⟨⟨hclosed.trans hinPage.symm, hinJob.symm⟩, fun _ => ⟨written, ?_⟩⟩
    rw [← hoffered]
    exact hsent

/-- In a run in PAPPL's order whose callbacks all find the writes in question
taken, the application and the encoder agree behind every callback, and
whenever the job is ended, the end of the open page, the end-of-job byte and
the UEL are sent. -/
theorem agree_run (host : Host) (heap : Heap UInt8) (options : PrOptions) (device : Sink)
    (calls : List Callback) (hstart : StartjobAccepted host options device)
    (hcalls : Run.Every Session.step (fun s c => InOrder s c ∧ CallAccepted s.job c)
      (Session.start host heap options device) calls) :
    ∀ before, before <+: calls →
      let j := (Run.run Session.step (Session.start host heap options device) before).job
      Agree j ∧ (EndjobAccepted j → Agree (cbRendjob j).2 ∧
        (j.jobOpen = true → ∃ written, (cbRendjob j).2.enc.sink.offered = j.enc.sink.offered ++
          (if j.pageOpen then written ++ [writeEndPage j.enc.job.copies] else []) ++
          [[REC_END_JOB], uel])) := by
  intro before hbefore j
  obtain ⟨behind, rfl⟩ := hbefore
  have hfront := ((Run.every_append _ before behind).mp hcalls).1
  have hinStep := hfront.invariant step_inStep (startjob_inStep heap hstart)
  exact ⟨hinStep.toAgree, endjob_agree hinStep⟩

/-- A page that just began has no line pending. -/
theorem endjobAccepted_newPage {m : Media} {job : QpdlJob} {out : Bytes} {j : JobT}
    (h : OnPage m job out [] j) : EndjobAccepted j := by
  obtain ⟨n, sent, pending, hbits, -, -, hmid⟩ := h.soFar
  have hpending : pending = [] := (List.append_eq_nil_iff.mp hbits.symm).2
  rw [hpending] at hmid
  exact ⟨fun _ hlines => absurd hmid.lines_eq hlines, fun _ => hmid.accepts _⟩

/-- A sample job over a device that accepts everything, cancelled on its first
page. -/
theorem agree_run_sample :
    let j := (Run.run Session.step (Session.start sampleHost zeroHeap sampleOptions .accepting)
      [.startPage sampleOptions]).job
    Agree j ∧ Agree (cbRendjob j).2 ∧
      (j.jobOpen = true → ∃ written, (cbRendjob j).2.enc.sink.offered = j.enc.sink.offered ++
        (if j.pageOpen then written ++ [writeEndPage j.enc.job.copies] else []) ++
        [[REC_END_JOB], uel]) := by
  have hdevice : Sink.accepting.Accepts := fun _ => rfl
  obtain ⟨m, hmedia, -, hbetween⟩ :=
    startjob_between (startjob_sample hdevice) zeroHeap_succeeds hdevice
  obtain ⟨-, hon⟩ := startpage_sample
    (s := Session.start sampleHost zeroHeap sampleOptions .accepting) hbetween
    (mem_mediaTable hmedia)
  obtain ⟨hagree, hend⟩ := agree_run sampleHost zeroHeap sampleOptions .accepting
    [.startPage sampleOptions] (fun _ _ _ _ _ => rfl)
    ⟨⟨rfl, fun _ _ => hbetween.idle.accepts _⟩, trivial⟩ _ (List.prefix_refl _)
  exact ⟨hagree, hend (endjobAccepted_newPage hon)⟩

/-! ## A page header that is refused -/

/-- The device takes the envelope and nothing behind it. -/
def refuseHeader (n : Nat) : Int := if n < 10 then 0 else -1

/-- A page whose header is refused stays open in the encoder alone, and the
end of the job sends nothing. -/
theorem startpage_headerRefused {s : Session} {m : Media} (hjob : s.job.jobOpen = true)
    (hpage : s.job.pageOpen = false) (hmedia : s.job.media = some m) (hm : m ∈ mediaTable)
    (hblocks : s.job.Blocks) (hinJob : s.job.enc.inJob = true) (hinPage : s.job.enc.inPage = false)
    (hno : s.job.enc.sink.answer s.job.enc.sink.calls ≠ 0) :
    let j := (s.step (.startPage sampleOptions)).job
    ¬Agree j ∧ j.jobOpen = true ∧ (cbRendjob j).2.enc.sink.offered = j.enc.sink.offered := by
  obtain ⟨hok, hready⟩ := preparePage_ready hblocks hmedia hm sample_format rfl (by decide)
    (by decide)
  obtain ⟨workspace, hworkspace, hroom⟩ := hready.pageFits.workspace
  have hwidth := hready.inRaster.width_le.trans (imageable_bounds m hm).2.1
  have hpos := hready.inRaster.width_pos
  let p := (preparePage s.job sampleOptions.header).2
  let e := s.job.enc.openPage p.geo.width workspace
  -- the encoder opens the page, and its first write is refused
  have hbegin : qpdlBeginPage p.enc p.geo.width p.workspace =
      e.emit (writePageHeader s.job.enc.job.pageHeader) := by
    unfold qpdlBeginPage
    rw [hready.enc_eq, hinJob, hinPage, if_neg (by decide),
      if_neg (not_or.mpr ⟨hpos.ne', Nat.not_lt.mpr hwidth⟩), hworkspace]
    exact if_neg (Nat.not_lt.mpr hroom)
  have hstart : (s.step (.startPage sampleOptions)).job =
      { p with enc := (e.emit (writePageHeader s.job.enc.job.pageHeader)).2 } := by
    unfold Session.step cbRstartpage
    dsimp only
    rw [hjob, hok, hbegin]
    exact congrArg Prod.snd (if_pos hno)
  intro j
  have hj : j = { p with enc := (e.emit (writePageHeader s.job.enc.job.pageHeader)).2 } := hstart
  have hclosed : p.pageOpen = false := hready.pageOpen_eq.trans hpage
  have hopen : p.jobOpen = true := hready.jobOpen_eq.trans hjob
  rw [hj]
  refine ⟨fun hagree => ?_, hopen, ?_⟩
  · have hdiffer : false = true := hclosed.symm.trans hagree.page
    exact absurd hdiffer (by decide)
  -- an encoder that is still on a page refuses to end the job
  have hend (f : Encoder) (hf : f.inPage = true) : qpdlEndJob f = (ESTATE, f) := by
    unfold qpdlEndJob
    rw [hf, Bool.or_true]
    rfl
  have hcancel (f : Encoder) : cancelPage { p with enc := f } = (true, { p with enc := f }) := by
    unfold cancelPage
    dsimp only
    rw [hclosed]
    rfl
  unfold cbRendjob
  dsimp only
  rw [hcancel, hopen, if_pos rfl, hend _ rfl]

/-- The sample job on a device that refuses the header of its first page: both
sides disagree, and `cb_rendjob` sends nothing. -/
theorem disagree_headerRefused :
    (cbRstartjob sampleHost zeroHeap sampleOptions { answer := refuseHeader }).1 = true ∧
      let s := Session.start sampleHost zeroHeap sampleOptions { answer := refuseHeader }
      let j := (s.step (.startPage sampleOptions)).job
      InOrder s (.startPage sampleOptions) ∧ ¬Agree j ∧ j.jobOpen = true ∧
        (cbRendjob j).2.enc.sink.offered = j.enc.sink.offered := by
  obtain ⟨m, hmedia⟩ := sample_media
  have hm := mem_mediaTable hmedia
  have hdevice : ∀ k < 10, ({ answer := refuseHeader } : Sink).answer (0 + k) = 0 := by decide
  obtain ⟨hstart, hjob, hpage, hmedia, hblocks, hopen⟩ :=
    startjob_started zeroHeap hmedia (sample_refused m hm) hdevice
  refine ⟨hstart, rfl, startpage_headerRefused hjob hpage hmedia hm (hblocks zeroHeap_succeeds)
    hopen.inJob hopen.inPage ?_⟩
  show (cbRstartjob sampleHost zeroHeap sampleOptions _).2.enc.sink.answer
    (cbRstartjob sampleHost zeroHeap sampleOptions _).2.enc.sink.calls ≠ 0
  rw [hopen.answer_eq, show (cbRstartjob sampleHost zeroHeap sampleOptions
    { answer := refuseHeader }).2.enc.sink.calls = 10 from hopen.calls_eq]
  decide

end Airbridge.App
