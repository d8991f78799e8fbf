import Airbridge.App.Buffers
import Airbridge.Lib.Run
import Airbridge.Qpdl.JobRead

/-!
# Print jobs

The callbacks in PAPPL's order, over a device that accepts every write: a job
is started, pages are started, handed over line by line and ended, and the job
is ended at any point.

There is one lemma for each callback.  `BetweenPages` and `OnPage` tie the
flags of the application, its blocks and the state of the encoder to the bytes
on the device, and `Session.Streamed` carries them through a run.
`walk_session` reads the bytes of a whole run back.
-/

namespace Airbridge.App

open Airbridge.Qpdl Airbridge.Halftone Memory

/-! ## The callbacks in order -/

/-- The callbacks between the start and the end of a job. -/
inductive Callback where
  | startPage (options : PrOptions)
  | writeLine (y : Nat) (line : Bytes)
  | endPage

/-- A print job as PAPPL sees it: whether a page was started and not ended
yet, how many were started, and how many lines of the last one lie in its crop
window. -/
structure Session where
  job : JobT
  inPage : Bool := false
  pages : Nat := 0
  lines : Nat := 0

/-- The session behind `cb_rstartjob`. -/
def Session.start (host : Host) (heap : Heap UInt8) (options : PrOptions) (device : Sink) :
    Session :=
  { job := (cbRstartjob host heap options device).2 }

def Session.step (s : Session) : Callback → Session
  | .startPage options =>
    let r := cbRstartpage s.job options
    { job := r.2
      inPage := r.1
      pages := if r.1 then s.pages + 1 else s.pages
      lines := 0 }
  | .writeLine y line =>
    { s with
      job := (cbRwriteline s.job y line).2
      lines := if s.job.geo.covers y then s.lines + 1 else s.lines }
  | .endPage => { s with job := (cbRendpage s.job).2, inPage := false }

theorem Session.step_startPage {s : Session} {options : PrOptions} {ok : Bool} {j : JobT}
    (h : cbRstartpage s.job options = (ok, j)) :
    s.step (.startPage options) =
      { job := j, inPage := ok, pages := if ok then s.pages + 1 else s.pages, lines := 0 } := by
  simp only [step, h]

theorem Session.step_writeLine {s : Session} {y : Nat} {line : Bytes} {ok : Bool} {j : JobT}
    (h : cbRwriteline s.job y line = (ok, j)) :
    s.step (.writeLine y line) =
      { s with job := j, lines := if s.job.geo.covers y then s.lines + 1 else s.lines } := by
  simp only [step, h]

theorem Session.step_endPage {s : Session} {ok : Bool} {j : JobT} (h : cbRendpage s.job = (ok, j)) :
    s.step .endPage = { s with job := j, inPage := false } := by
  simp only [step, h]

/-- PAPPL's order: pages do not nest, and lines and ends belong to a page that
was started. -/
def InOrder (s : Session) : Callback → Prop
  | .startPage _ => s.inPage = false
  | .writeLine _ _ => s.inPage = true
  | .endPage => s.inPage = true

/-- The lines of a page fit its 256 bands. -/
def WithinBands (s : Session) : Callback → Prop
  | .writeLine y _ => s.job.geo.covers y = true → s.lines < 256 * 128
  | _ => True

/-! ## The states of a job -/

/-- The job between two pages: `out` is on the device. -/
structure BetweenPages (m : Media) (job : QpdlJob) (out : Bytes) (j : JobT) : Prop where
  jobOpen : j.jobOpen = true
  pageOpen : j.pageOpen = false
  media_eq : j.media = some m
  blocks : j.Blocks
  idle : Idle j.enc job out

/-- The job on a page that began with `base` on the device: `rows` are the
packed lines of the crop window so far. -/
structure OnPage (m : Media) (job : QpdlJob) (base : Bytes) (rows : List Bytes) (j : JobT) :
    Prop where
  jobOpen : j.jobOpen = true
  pageOpen : j.pageOpen = true
  media_eq : j.media = some m
  pageFits : j.PageFits
  right_le : j.geo.x0 + j.geo.width ≤ j.rasterWidth
  width_pos : 0 < j.geo.width
  width_le : j.geo.width ≤ 65280
  ht : j.ht.Fits j.geo.width
  row_bytes : ∀ row ∈ rows, (j.geo.width + 7) / 8 ≤ row.length
  soFar : PageSoFar j.enc job base j.geo.width (rows.map (rowBits j.geo.width))

/-- What the ink of a line depends on. -/
structure SameInk (j j' : JobT) : Prop where
  geo_eq : j'.geo = j.geo
  fmt_eq : j'.fmt = j.fmt
  host_eq : j'.host = j.host
  lut_eq : j'.lut = j.lut

theorem SameInk.trans {j j' j'' : JobT} (h : SameInk j j') (h' : SameInk j' j'') : SameInk j j'' :=
  ⟨h'.geo_eq.trans h.geo_eq, h'.fmt_eq.trans h.fmt_eq, h'.host_eq.trans h.host_eq,
    h'.lut_eq.trans h.lut_eq⟩

theorem SameInk.inkLine_eq {j j' : JobT} (h : SameInk j j') (line : Bytes) :
    inkLine j' line = inkLine j line := by
  unfold inkLine
  rw [h.geo_eq, h.fmt_eq, h.host_eq, h.lut_eq]

/-! ## Starting a page -/

variable {m : Media} {job : QpdlJob} {out base : Bytes} {rows : List Bytes} {j : JobT}

/-- A page that is refused leaves nothing on the device. -/
theorem startpage_refused (h : BetweenPages m job out j) {options : PrOptions}
    (hno : (preparePage j options.header).1 = false) :
    (cbRstartpage j options).1 = false ∧ BetweenPages m job out (cbRstartpage j options).2 := by
  have hsame := preparePage_sameJob j options.header
  have hstart : cbRstartpage j options = (false, (preparePage j options.header).2) := by
    unfold cbRstartpage
    dsimp only
    rw [h.jobOpen, hno]
    rfl
  rw [hstart]
  refine ⟨rfl, hsame.jobOpen_eq.trans h.jobOpen, hsame.pageOpen_eq.trans h.pageOpen,
    hsame.media_eq.trans h.media_eq, h.blocks.congr (preparePage_refused h.blocks hno), ?_⟩
  show Idle (preparePage j options.header).2.enc job out
  rw [hsame.enc_eq]
  exact h.idle

/-- A page that gets to the encoder is started. -/
theorem startpage_started (h : BetweenPages m job out j) (hm : m ∈ mediaTable)
    {options : PrOptions} (hok : (preparePage j options.header).1 = true) :
    ∃ p e, Ready m options.header j p ∧
      cbRstartpage j options = (true, { p with enc := e, pageOpen := true }) ∧
      OnPage m job out [] { p with enc := e, pageOpen := true } := by
  obtain ⟨⟨fmt, hfmt⟩, hres, hw, hh⟩ := of_preparePage hok
  have hready := (preparePage_ready h.blocks h.media_eq hm hfmt hres hw hh).2
  have hwidth : (preparePage j options.header).2.geo.width ≤ 65280 :=
    hready.inRaster.width_le.trans (imageable_bounds m hm).2.1
  obtain ⟨workspace, hworkspace, hroom⟩ := hready.pageFits.workspace
  have hidle : Idle (preparePage j options.header).2.enc job out := by
    rw [hready.enc_eq]
    exact h.idle
  obtain ⟨e, hbegin, hsoFar⟩ :=
    beginPage_soFar hidle hready.inRaster.width_pos hwidth hroom
  have hpage := hready.pageFits
  have hfits : ({ (preparePage j options.header).2 with enc := e, pageOpen := true } :
      JobT).PageFits :=
    ⟨hpage.toFits.congr rfl, hpage.succeeds, hpage.allocRasterWidth_eq, hpage.allocWidth_eq⟩
  refine ⟨(preparePage j options.header).2, e, hready, ?_, hready.jobOpen_eq.trans h.jobOpen, rfl,
    hready.media_eq.trans h.media_eq, hfits, ?_, hready.inRaster.width_pos, hwidth, ?_,
    fun row hrow => absurd hrow List.not_mem_nil, hsoFar⟩
  · unfold cbRstartpage
    dsimp only
    rw [h.jobOpen, hok, hworkspace, hbegin]
    rfl
  · show _ ≤ (preparePage j options.header).2.rasterWidth
    rw [hready.rasterWidth_eq]
    exact hready.inRaster.right_le
  · show (preparePage j options.header).2.ht.Fits _
    rw [hready.ht_eq]
    exact freshHalftoner_fits _ _

/-! ## Lines -/

/-- A line outside the crop window changes nothing. -/
theorem writeline_margin (h : OnPage m job base rows j) {y : Nat} (hy : j.geo.covers y = false)
    (line : Bytes) : cbRwriteline j y line = (true, j) := by
  unfold cbRwriteline
  rw [h.pageOpen, hy]
  rfl

/-- A line in the crop window becomes the next row: its ink, halftoned. -/
theorem writeline_row (h : OnPage m job base rows j) {y : Nat} (hy : j.geo.covers y = true)
    (hlt : rows.length < 256 * 128) (line : Bytes) :
    let r := halftoneLine j.ht (inkLine j line) (y - j.geo.y0)
      (List.replicate ((j.geo.width + 7) / 8) 0)
    ∃ j', cbRwriteline j y line = (true, j') ∧ OnPage m job base (rows ++ [r.2]) j' ∧
      j'.ht = r.1 ∧ SameInk j j' := by
  intro r
  obtain ⟨hbits, hht, hfits⟩ := convertLine_fits h.pageFits.toFits h.right_le h.ht y line
  have hsame := convertLine_samePage j y line
  obtain ⟨hlen, -⟩ := length_halftoneLine j.ht (inkLine j line) (y - j.geo.y0)
    (List.replicate ((j.geo.width + 7) / 8) 0)
  rw [List.length_replicate] at hlen
  have hrow : (j.geo.width + 7) / 8 ≤ r.2.length := hlen.ge
  obtain ⟨e, hwrite, hsoFar⟩ := writeLine_soFar h.soFar (by rw [List.length_map]; exact hlt) hrow
  let j' : JobT := { (convertLine j y line).encoded e with linesIn := j.linesIn + 1 }
  have hroom : ∃ block, some e.workspace = some block ∧
      qpdlEncoderWorkspaceBytes j.geo.width ≤ block.length := by
    obtain ⟨n, sent, pending, -, -, -, hmid⟩ := hsoFar
    exact ⟨e.workspace, rfl, hmid.room⟩
  have hpage : j'.PageFits :=
    ⟨⟨hfits.grayFull, hfits.gray, hfits.ink, hfits.bits, hfits.htState, hroom⟩,
      h.pageFits.succeeds, h.pageFits.allocRasterWidth_eq, h.pageFits.allocWidth_eq⟩
  refine ⟨j', ?_, ⟨h.jobOpen, h.pageOpen, h.media_eq, hpage, h.right_le, h.width_pos, h.width_le,
    ?_, ?_, ?_⟩, hht, ⟨rfl, rfl, rfl, rfl⟩⟩
  · unfold cbRwriteline
    dsimp only
    rw [h.pageOpen, hy, hsame.enc_eq, hbits, hwrite]
    rfl
  · show (convertLine j y line).ht.Fits j.geo.width
    rw [hht]
    exact halftoneLine_fits h.ht _ _ _
  · intro row hrow
    rcases List.mem_append.mp hrow with hrow | hrow
    · exact h.row_bytes row hrow
    · rw [List.mem_singleton.mp hrow]
      exact hlen.ge
  · rw [List.map_append, List.map_singleton]
    exact hsoFar

/-! ## The end of a page and of the job -/

/-- The end of a page leaves its bytes on the device. -/
theorem endpage_between (h : OnPage m job base rows j) (hle : rows.length ≤ 256 * 128) :
    ∃ j', cbRendpage j = (true, j') ∧
      BetweenPages m job (base ++ pageBytes job j.geo.width (rows.map (rowBits j.geo.width))) j' := by
  obtain ⟨e, hend, hidle⟩ := endPage_soFar h.soFar (by rw [List.length_map]; exact hle)
  let j' : JobT := ({ j with pageOpen := false } : JobT).encoded e
  have hlen : e.workspace.length = j.enc.workspace.length := by
    rw [← length_workspace_endPage j.enc, hend]
  have hroom : qpdlEncoderWorkspaceBytes j.geo.width ≤ e.workspace.length := by
    obtain ⟨n, sent, pending, -, -, -, hmid⟩ := h.soFar
    rw [hlen]
    exact hmid.room
  have hfits := h.pageFits
  have hpage : j'.PageFits :=
    ⟨⟨hfits.grayFull, hfits.gray, hfits.ink, hfits.bits, hfits.htState, e.workspace, rfl, hroom⟩,
      hfits.succeeds, hfits.allocRasterWidth_eq, hfits.allocWidth_eq⟩
  refine ⟨j', ?_, h.jobOpen, rfl, h.media_eq, hpage.blocks, hidle⟩
  unfold cbRendpage
  dsimp only
  rw [h.pageOpen, hend]
  rfl

/-- The end of the job behind its last page. -/
theorem endjob_between (h : BetweenPages m job out j) :
    (cbRendjob j).1 = true ∧ (cbRendjob j).2.enc.sink.accepted = out ++ jobEnd := by
  obtain ⟨e, hend, -, -, hout⟩ := endJob_sent h.idle
  have hcancel : cancelPage j = (true, j) := by
    unfold cancelPage
    rw [h.pageOpen]
    rfl
  unfold cbRendjob
  dsimp only
  rw [hcancel, h.jobOpen, hend]
  exact ⟨rfl, hout⟩

/-- A job that is cancelled on a page ends the page first. -/
theorem endjob_onPage (h : OnPage m job base rows j) (hle : rows.length ≤ 256 * 128) :
    (cbRendjob j).1 = true ∧ (cbRendjob j).2.enc.sink.accepted =
      base ++ pageBytes job j.geo.width (rows.map (rowBits j.geo.width)) ++ jobEnd := by
  obtain ⟨j', hend, hbetween⟩ := endpage_between h hle
  have hcancel : cancelPage j = (true, j') := by
    unfold cancelPage
    rw [h.pageOpen, hend]
    rfl
  have hcancel' : cancelPage j' = (true, j') := by
    unfold cancelPage
    rw [hbetween.pageOpen]
    rfl
  have hsame : cbRendjob j = cbRendjob j' := by
    unfold cbRendjob
    rw [hcancel, hcancel']
  rw [hsame]
  exact endjob_between hbetween

/-! ## The start of a job -/

/-- The texts the application puts into the envelope do not end it early. -/
theorem qpdlJob_unmarked (host : Host) (media : Media) (options : PrOptions) :
    (qpdlJob host media options).Unmarked := by
  have hmap : ∀ entry ∈ paperTypeMap, ¬enterLanguage <:+: entry.2 := by decide
  have htype : ¬enterLanguage <:+: jobmapPaperType options.mediaType := by
    unfold jobmapPaperType
    split
    · rename_i entry hfind
      exact hmap entry (List.mem_of_find?_eq_some hfind)
    · decide
  have hproducer : ¬enterLanguage <:+: producerText := by decide
  exact ⟨fun t ht => Option.some.inj ht ▸ htype, fun s hs => Option.some.inj hs ▸ hproducer⟩

theorem envelopeWrites_qpdlJob (host : Host) (media : Media) (options : PrOptions) :
    envelopeWrites (qpdlJob host media options) = 10 := by
  simp [envelopeWrites, qpdlJob, qpdlJobDefault]

/-- A job starts when the encoder accepts it and the device takes its
envelope. -/
theorem startjob_started {host : Host} (heap : Heap UInt8) {options : PrOptions} {device : Sink}
    {m : Media} (hmedia : mediaByPwg options.mediaSizeName = some m)
    (hrefused : (qpdlJob host m options).refused = false)
    (hdevice : ∀ k < 10, device.answer (device.calls + k) = 0) :
    let r := cbRstartjob host heap options device
    r.1 = true ∧ r.2.jobOpen = true ∧ r.2.pageOpen = false ∧ r.2.media = some m ∧
      (heap.Succeeds → r.2.Blocks) ∧ Opening r.2.enc (qpdlJob host m options) device.answer
        (device.accepted ++ envelope (qpdlJob host m options)) (device.calls + 10) 0 := by
  obtain ⟨e, hbegin, hopen⟩ :=
    beginJob_opening (zeroEncoder device) (qpdlJob host m options) device hrefused (by
      rw [envelopeWrites_qpdlJob]
      exact hdevice)
  rw [envelopeWrites_qpdlJob] at hopen
  unfold cbRstartjob
  dsimp only
  rw [hmedia]
  dsimp only
  rw [hbegin]
  exact ⟨rfl, rfl, rfl, rfl, fun hheap => ⟨hheap, .inl rfl⟩, hopen⟩

/-- A job that starts has a media of the table, an accepted QPDL job and its
envelope on the device. -/
theorem startjob_between {host : Host} {heap : Heap UInt8} {options : PrOptions} {device : Sink}
    (hstart : (cbRstartjob host heap options device).1 = true) (hheap : heap.Succeeds)
    (hdevice : device.Accepts) :
    ∃ m, mediaByPwg options.mediaSizeName = some m ∧
      (qpdlJob host m options).refused = false ∧
      BetweenPages m (qpdlJob host m options)
        (device.accepted ++ envelope (qpdlJob host m options))
        (cbRstartjob host heap options device).2 := by
  obtain ⟨m, hmedia, hrefused⟩ : ∃ m, mediaByPwg options.mediaSizeName = some m ∧
      (qpdlJob host m options).refused = false := by
    unfold cbRstartjob at hstart
    dsimp only at hstart
    cases hmedia : mediaByPwg options.mediaSizeName with
    | none =>
      rw [hmedia] at hstart
      exact absurd (show false = true from hstart) (by decide)
    | some m =>
      rw [hmedia] at hstart
      dsimp only at hstart
      split_ifs at hstart with hrc
      exact ⟨m, rfl, refused_of_beginJob (not_not.mp hrc)⟩
  obtain ⟨-, hjob, hpage, hm, hblocks, hopen⟩ :=
    startjob_started heap hmedia hrefused fun k _ => hdevice _
  refine ⟨m, hmedia, hrefused, hjob, hpage, hm, hblocks hheap, hopen.job_eq, hopen.inJob,
    hopen.inPage, ?_, hopen.accepted⟩
  unfold Sink.Accepts
  rw [hopen.answer_eq]
  exact hdevice

/-! ## Runs -/

/-- The page whose lines are `rows`, as the whole-page encoder takes it. -/
def OnPage.page (h : OnPage m job base rows j) (hle : rows.length ≤ 256 * 128) : Page where
  width := j.geo.width
  width_pos := h.width_pos
  width_le := h.width_le
  workspace := List.replicate (qpdlEncoderWorkspaceBytes j.geo.width) 0
  room := by rw [List.length_replicate]
  rows := rows
  rows_le := hle
  row_bytes := h.row_bytes

/-- The pages of a job behind `base`. -/
def pagesBehind (base : Bytes) (job : QpdlJob) (pages : List Page) : Bytes :=
  base ++ pages.flatMap fun p => pageBytes job p.width p.bits

theorem pagesBehind_append (base : Bytes) (job : QpdlJob) (pages : List Page) (p : Page) :
    pagesBehind base job (pages ++ [p]) =
      pagesBehind base job pages ++ pageBytes job p.width p.bits := by
  unfold pagesBehind
  rw [List.flatMap_append, List.flatMap_singleton, List.append_assoc]

/-- The session is between pages behind `pages`, or on the page behind them. -/
def Session.Streamed (m : Media) (job : QpdlJob) (base : Bytes) (s : Session) : Prop :=
  ∃ pages : List Page,
    (s.inPage = false ∧ s.pages = pages.length ∧
      BetweenPages m job (pagesBehind base job pages) s.job) ∨
    (s.inPage = true ∧ s.pages = pages.length + 1 ∧ s.lines ≤ 256 * 128 ∧
      ∃ rows, rows.length = s.lines ∧ OnPage m job (pagesBehind base job pages) rows s.job)

/-- Every callback in its place keeps the stream well formed. -/
theorem step_streamed (hm : m ∈ mediaTable) (s : Session) (c : Callback)
    (h : s.Streamed m job base) (hc : InOrder s c ∧ WithinBands s c) :
    (s.step c).Streamed m job base := by
  obtain ⟨pages, ⟨hin, hpages, hbetween⟩ | ⟨hin, hpages, hle, rows, hrows, hon⟩⟩ := h
  · cases c with
    | startPage options =>
      cases hprepare : (preparePage s.job options.header).1 with
      | false =>
        obtain ⟨hno, hb⟩ := startpage_refused hbetween hprepare
        rw [Session.step_startPage (Prod.ext hno rfl)]
        exact ⟨pages, .inl ⟨rfl, hpages, hb⟩⟩
      | true =>
        obtain ⟨p, e, -, hstart, hon⟩ := startpage_started hbetween hm hprepare
        rw [Session.step_startPage hstart]
        exact ⟨pages, .inr ⟨rfl, congrArg (· + 1) hpages, Nat.zero_le _, [], rfl, hon⟩⟩
    | writeLine y line => exact absurd (hin.symm.trans hc.1) (by decide)
    | endPage => exact absurd (hin.symm.trans hc.1) (by decide)
  · cases c with
    | startPage options => exact absurd (hin.symm.trans hc.1) (by decide)
    | writeLine y line =>
      refine ⟨pages, .inr ⟨?_, ?_, ?_⟩⟩
      · exact hin
      · exact hpages
      cases hy : s.job.geo.covers y with
      | false =>
        rw [Session.step_writeLine (writeline_margin hon hy line), hy]
        exact ⟨hle, rows, hrows, hon⟩
      | true =>
        have hlt := hc.2 hy
        obtain ⟨j', hwrite, hon', -, -⟩ := writeline_row hon hy (by rw [hrows]; exact hlt) line
        rw [Session.step_writeLine hwrite, hy]
        refine ⟨hlt, _, ?_, hon'⟩
        rw [List.length_append, hrows]
        rfl
    | endPage =>
      have hle' : rows.length ≤ 256 * 128 := by
        rw [hrows]
        exact hle
      obtain ⟨j', hend, hb⟩ := endpage_between hon hle'
      rw [Session.step_endPage hend]
      refine ⟨pages ++ [hon.page hle'], .inl ⟨rfl, ?_, ?_⟩⟩
      · rw [List.length_append]
        exact hpages
      · rw [pagesBehind_append]
        exact hb

/-- The end of the job leaves a whole job on the device, wherever it comes. -/
theorem endjob_streamed {s : Session} (h : s.Streamed m job base) :
    ∃ pages : List Page, pages.length = s.pages ∧
      (cbRendjob s.job).1 = true ∧
      (cbRendjob s.job).2.enc.sink.accepted = pagesBehind base job pages ++ jobEnd := by
  obtain ⟨pages, ⟨-, hpages, hbetween⟩ | ⟨-, hpages, hle, rows, hrows, hon⟩⟩ := h
  · exact ⟨pages, hpages.symm, endjob_between hbetween⟩
  · have hle' : rows.length ≤ 256 * 128 := by
      rw [hrows]
      exact hle
    refine ⟨pages ++ [hon.page hle'], ?_, ?_⟩
    · rw [List.length_append]
      exact hpages.symm
    · rw [pagesBehind_append]
      exact endjob_onPage hon hle'

/-- The callbacks of the walker for one page: its header, its bands and its
end. -/
def PageEvents (evs : List Event) : Prop :=
  ∃ (start stop : Nat) (h : PageHeader) (bands : List ReadBand) (copies : UInt16),
    evs = .page start h :: (bands.map ReadBand.event ++ [.endPage stop copies])

/-- The states between the start of a job and its end, for a device that
accepts every write. -/
theorem run_streamed {host : Host} {heap : Heap UInt8} {options : PrOptions} {device : Sink}
    {calls : List Callback} (hstart : (cbRstartjob host heap options device).1 = true)
    (hheap : heap.Succeeds) (hdevice : device.Accepts)
    (hcalls : Run.Every Session.step (fun s c => InOrder s c ∧ WithinBands s c)
      (Session.start host heap options device) calls) :
    ∃ m, mediaByPwg options.mediaSizeName = some m ∧
      (qpdlJob host m options).refused = false ∧
      (Run.run Session.step (Session.start host heap options device) calls).Streamed m
        (qpdlJob host m options) (device.accepted ++ envelope (qpdlJob host m options)) := by
  obtain ⟨m, hmedia, hrefused, hbetween⟩ := startjob_between hstart hheap hdevice
  have hempty (base : Bytes) (job : QpdlJob) : pagesBehind base job [] = base :=
    List.append_nil base
  refine ⟨m, hmedia, hrefused, hcalls.invariant (step_streamed (mem_mediaTable hmedia)) ?_⟩
  refine ⟨[], .inl ⟨rfl, rfl, ?_⟩⟩
  rw [hempty]
  exact hbetween

/-- Wherever a run of callbacks in PAPPL's order is ended, the walker accepts
the bytes on the device: the lines of the envelope, one page for each page that
was started, and the end of the job. -/
theorem walk_session (host : Host) (heap : Heap UInt8) (options : PrOptions) (device : Sink)
    (calls : List Callback) (hstart : (cbRstartjob host heap options device).1 = true)
    (hheap : heap.Succeeds) (hdevice : ∀ n, device.answer n = 0)
    (hcalls : Run.Every Session.step (fun s c => InOrder s c ∧ WithinBands s c)
      (Session.start host heap options device) calls) :
    let s := Run.run Session.step (Session.start host heap options device) calls
    let r := walk ((cbRendjob s.job).2.enc.sink.accepted.drop device.accepted.length)
    r.rc = OK ∧ ∃ (lines : List Bytes) (evss : List (List Event)) (stop : Nat),
      r.events = lineEvents 0 lines ++ evss.flatten ++ [.endJob stop, .pjlLine (stop + 1) uel] ∧
      evss.length = s.pages ∧ ∀ evs ∈ evss, PageEvents evs := by
  intro s r
  obtain ⟨m, -, hrefused, hstreamed⟩ := run_streamed hstart hheap hdevice hcalls
  obtain ⟨pages, hpages, -, hout⟩ := endjob_streamed hstreamed
  have hbytes : (cbRendjob s.job).2.enc.sink.accepted.drop device.accepted.length =
      jobBytes (qpdlJob host m options) pages := by
    rw [hout]
    unfold pagesBehind jobBytes
    rw [List.append_assoc, List.append_assoc, List.drop_left, List.append_assoc]
  obtain ⟨hrc, evss, stop, hevents, hreads⟩ := walk_jobBytes (QpdlJob.accepted hrefused)
    (qpdlJob_unmarked host m options) pages
  rw [← hbytes] at hrc hevents
  refine ⟨hrc, _, evss, stop, hevents, hreads.length_eq.symm.trans hpages, ?_⟩
  intro evs hevs
  obtain ⟨i, hi, rfl⟩ := List.mem_iff_getElem.mp hevs
  have hi' : i < pages.length := by
    rw [hreads.length_eq]
    exact hi
  obtain ⟨start, stop, h, bands, hshape, -⟩ := (hreads.get hi' hi).reads
  exact ⟨start, stop, h, bands, _, hshape⟩

/-! ## A job with one page -/

def sampleHost : Host where
  date := ascii "20260101"
  toneBuild := fun _ => Raster.plainLut
  srgbGray := fun r _ _ => r

/-- An A4 job whose pages are eight gray pixels wide and one line high. -/
def sampleOptions : PrOptions where
  header := ⟨8, 1, 8, CUPS_CSPACE_SW, (600, 600)⟩
  mediaSizeName := ascii "iso_a4_210x297mm"
  mediaSource := ascii "auto"
  mediaType := ascii "stationery"
  printContentOptimize := .other
  printQuality := 4
  copies := 1

theorem sample_refused : ∀ m ∈ mediaTable, (qpdlJob sampleHost m sampleOptions).refused = false := by
  decide

theorem sample_media : ∃ m, mediaByPwg sampleOptions.mediaSizeName = some m :=
  Option.ne_none_iff_exists'.mp (by decide)

/-- The sample job starts. -/
theorem startjob_sample {device : Sink} (hdevice : device.Accepts) :
    (cbRstartjob sampleHost zeroHeap sampleOptions device).1 = true := by
  obtain ⟨m, hmedia⟩ := sample_media
  exact (startjob_started zeroHeap hmedia (sample_refused m (mem_mediaTable hmedia))
    fun k _ => hdevice _).1

theorem sample_format : sampleOptions.header.pixelFormat = some .sgray8 := rfl

/-- A page of the sample job is started. -/
theorem startpage_sample {m : Media} {job : QpdlJob} {out : Bytes} {s : Session}
    (h : BetweenPages m job out s.job) (hm : m ∈ mediaTable) :
    (cbRstartpage s.job sampleOptions).1 = true ∧
      OnPage m job out [] (s.step (.startPage sampleOptions)).job := by
  have hready := (preparePage_ready h.blocks h.media_eq hm sample_format rfl (by decide)
    (by decide)).1
  obtain ⟨p, e, -, hstart, hon⟩ := startpage_started h hm hready
  rw [Session.step_startPage hstart, hstart]
  exact ⟨rfl, hon⟩

/-- A page with one line, ended, and a job that is cancelled on its second
page. -/
theorem walk_session_sample :
    let calls : List Callback := [.startPage sampleOptions, .writeLine 0 (List.replicate 8 0),
      .endPage, .startPage sampleOptions]
    let s := Run.run Session.step (Session.start sampleHost zeroHeap sampleOptions .accepting) calls
    let r := walk ((cbRendjob s.job).2.enc.sink.accepted.drop Sink.accepting.accepted.length)
    r.rc = OK ∧ ∃ (lines : List Bytes) (evss : List (List Event)) (stop : Nat),
      r.events = lineEvents 0 lines ++ evss.flatten ++ [.endJob stop, .pjlLine (stop + 1) uel] ∧
      evss.length = s.pages ∧ ∀ evs ∈ evss, PageEvents evs := by
  intro calls
  have hdevice : Sink.accepting.Accepts := fun _ => rfl
  have hstart := startjob_sample hdevice
  obtain ⟨m, hmedia, -, hbetween⟩ := startjob_between hstart zeroHeap_succeeds hdevice
  have hpage := (startpage_sample (s := Session.start sampleHost zeroHeap sampleOptions .accepting)
    hbetween (mem_mediaTable hmedia)).1
  have hcalls (s : Session) (hs : s.inPage = false)
      (hj : (cbRstartpage s.job sampleOptions).1 = true) :
      Run.Every Session.step (fun s c => InOrder s c ∧ WithinBands s c) s calls :=
    ⟨⟨hs, trivial⟩, ⟨hj, fun _ => show 0 < 256 * 128 by decide⟩, ⟨hj, trivial⟩, ⟨rfl, trivial⟩,
      trivial⟩
  exact walk_session sampleHost zeroHeap sampleOptions .accepting calls hstart zeroHeap_succeeds
    hdevice (hcalls _ rfl hpage)

end Airbridge.App
