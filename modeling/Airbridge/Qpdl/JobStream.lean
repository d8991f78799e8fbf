import Airbridge.Qpdl.Envelope

/-!
# Whole jobs

A job is encoded by `m2022_qpdl_begin_job`, for each page
`m2022_qpdl_begin_page`, `m2022_qpdl_write_line` for every row and
`m2022_qpdl_end_page`, and `m2022_qpdl_end_job`.  A chain of calls stops at
the first one that fails, so it returns 0 exactly when all of them do.
-/

namespace Airbridge.Qpdl

/-- A page within the limits of the encoder: its width, the caller's
workspace with whatever it holds, and the packed rows. -/
structure Page where
  width : Nat
  width_pos : 0 < width
  width_le : width ≤ 65280
  workspace : Bytes
  room : qpdlEncoderWorkspaceBytes width ≤ workspace.length
  rows : List Bytes
  rows_le : rows.length ≤ 256 * 128
  row_bytes : ∀ row ∈ rows, (width + 7) / 8 ≤ row.length

/-- The pixels of a page inside its width. -/
def Page.bits (p : Page) : List (List Bool) := p.rows.map (rowBits p.width)

def writeLines (e : Encoder) : List Bytes → Int × Encoder
  | [] => (OK, e)
  | row :: rows => orReturn (qpdlWriteLine e (some row)) fun e => writeLines e rows

def encodePage (e : Encoder) (p : Page) : Int × Encoder :=
  orReturn (qpdlBeginPage e p.width (some p.workspace)) fun e =>
  orReturn (writeLines e p.rows) qpdlEndPage

def encodePages (e : Encoder) : List Page → Int × Encoder
  | [] => (OK, e)
  | p :: ps => orReturn (encodePage e p) fun e => encodePages e ps

def encodeJob (e : Encoder) (job : QpdlJob) (sink : Sink) (pages : List Page) : Int × Encoder :=
  orReturn (qpdlBeginJob e job sink) fun e =>
  orReturn (encodePages e pages) qpdlEndJob

/-! ## A page line by line -/

/-- In a page of `width` pixels that began with `base` on the sink: `bits` are
the pixels of its lines so far.  Complete bands are sent, and the rows behind
them are pending. -/
def PageSoFar (e : Encoder) (job : QpdlJob) (base : Bytes) (width : Nat)
    (bits : List (List Bool)) : Prop :=
  ∃ (n : Nat) (sent pending : List (List Bool)), bits = sent ++ pending ∧
    sent.length = 128 * n ∧ pending.length < 128 ∧
    MidPage e job (base ++ writePageHeader job.pageHeader ++ bandRecords width 0 sent) width n
      pending

theorem beginPage_soFar {e : Encoder} {job : QpdlJob} {base : Bytes} (h : Idle e job base)
    {width : Nat} (hpos : 0 < width) (hle : width ≤ 65280) {workspace : Bytes}
    (hroom : qpdlEncoderWorkspaceBytes width ≤ workspace.length) :
    ∃ e', qpdlBeginPage e width (some workspace) = (OK, e') ∧ PageSoFar e' job base width [] := by
  obtain ⟨e', hbegin, hmid⟩ := beginPage_midPage h hpos hle hroom
  refine ⟨e', hbegin, 0, [], [], rfl, rfl, by decide, ?_⟩
  rw [bandRecords_nil, List.append_nil]
  exact hmid

theorem writeLine_soFar {e : Encoder} {job : QpdlJob} {base : Bytes} {width : Nat}
    {bits : List (List Bool)} (h : PageSoFar e job base width bits)
    (hlt : bits.length < 256 * 128) {row : Bytes} (hrow : (width + 7) / 8 ≤ row.length) :
    ∃ e', qpdlWriteLine e (some row) = (OK, e') ∧
      PageSoFar e' job base width (bits ++ [rowBits width row]) := by
  obtain ⟨n, sent, pending, rfl, hsent, hpending, hmid⟩ := h
  rw [List.length_append] at hlt
  obtain ⟨e', hwrite, hmid⟩ := writeLine_midPage hmid (by omega) hrow
  refine ⟨e', hwrite, ?_⟩
  split_ifs at hmid with hmore
  · exact ⟨n, sent, pending ++ [rowBits width row], List.append_assoc _ _ _, hsent,
      by simpa using hmore, hmid⟩
  · have hfull : (pending ++ [rowBits width row]).length = 128 := by
      rw [List.length_append, List.length_singleton]
      omega
    refine ⟨n + 1, sent ++ (pending ++ [rowBits width row]), [], by simp, ?_, by decide, ?_⟩
    · rw [List.length_append, hfull]
      omega
    · have hgroup : bandRecords width n (pending ++ [rowBits width row] ++ []) =
          bandRecord width n (pending ++ [rowBits width row]) ++ bandRecords width (n + 1) [] :=
        bandRecords_group hfull
      rw [bandRecords_nil, List.append_nil, List.append_nil] at hgroup
      rw [bandRecords_append hsent, Nat.zero_add, hgroup, ← List.append_assoc]
      exact hmid

/-- The end of a page leaves all of its bytes on the sink. -/
theorem endPage_soFar {e : Encoder} {job : QpdlJob} {base : Bytes} {width : Nat}
    {bits : List (List Bool)} (h : PageSoFar e job base width bits)
    (hle : bits.length ≤ 256 * 128) :
    ∃ e', qpdlEndPage e = (OK, e') ∧ Idle e' job (base ++ pageBytes job width bits) := by
  obtain ⟨n, sent, pending, rfl, hsent, hpending, hmid⟩ := h
  rw [List.length_append] at hle
  obtain ⟨e', hend, hidle⟩ := endPage_idle hmid fun hne => by
    have := List.length_pos_of_ne_nil hne
    omega
  refine ⟨e', hend, ?_⟩
  rw [pageBytes, bandRecords_append hsent, Nat.zero_add]
  simpa only [List.append_assoc] using hidle

theorem writeLines_soFar {e : Encoder} {job : QpdlJob} {base : Bytes} {width : Nat}
    {bits : List (List Bool)} (h : PageSoFar e job base width bits) (rows : List Bytes)
    (hrows : ∀ row ∈ rows, (width + 7) / 8 ≤ row.length)
    (hle : bits.length + rows.length ≤ 256 * 128) :
    ∃ e', writeLines e rows = (OK, e') ∧
      PageSoFar e' job base width (bits ++ rows.map (rowBits width)) := by
  induction rows generalizing e bits with
  | nil => exact ⟨e, rfl, by simpa using h⟩
  | cons row rows ih =>
    rw [List.length_cons] at hle
    obtain ⟨e1, hwrite, h1⟩ := writeLine_soFar h (by omega) (hrows row List.mem_cons_self)
    obtain ⟨e2, hrest, h2⟩ := ih h1 (fun r hr => hrows r (List.mem_cons_of_mem row hr))
      (by rw [List.length_append, List.length_singleton]; omega)
    refine ⟨e2, by rw [writeLines, hwrite, orReturn_ok, hrest], ?_⟩
    rw [List.map_cons, List.append_cons]
    exact h2

/-! ## Pages and jobs -/

/-- A page writes its bytes. -/
theorem encodePage_idle {e : Encoder} {job : QpdlJob} {out : Bytes} (h : Idle e job out)
    (p : Page) :
    ∃ e', encodePage e p = (OK, e') ∧ Idle e' job (out ++ pageBytes job p.width p.bits) := by
  obtain ⟨e1, hbegin, h1⟩ := beginPage_soFar h p.width_pos p.width_le p.room
  obtain ⟨e2, hwrite, h2⟩ := writeLines_soFar h1 p.rows p.row_bytes (by simpa using p.rows_le)
  obtain ⟨e3, hend, hidle⟩ := endPage_soFar h2 (by simpa using p.rows_le)
  exact ⟨e3, by rw [encodePage, hbegin, orReturn_ok, hwrite, orReturn_ok, hend], hidle⟩

theorem encodePages_idle {e : Encoder} {job : QpdlJob} {out : Bytes} (h : Idle e job out)
    (ps : List Page) :
    ∃ e', encodePages e ps = (OK, e') ∧
      Idle e' job (out ++ ps.flatMap fun p => pageBytes job p.width p.bits) := by
  induction ps generalizing e out with
  | nil => exact ⟨e, rfl, by simpa using h⟩
  | cons p ps ih =>
    obtain ⟨e1, hpage, hidle⟩ := encodePage_idle h p
    obtain ⟨e2, hrest, hidle2⟩ := ih hidle
    refine ⟨e2, by rw [encodePages, hpage, orReturn_ok, hrest], ?_⟩
    rw [List.flatMap_cons, ← List.append_assoc]
    exact hidle2

/-- The stream of a job with these pages. -/
def jobBytes (job : QpdlJob) (pages : List Page) : Bytes :=
  envelope job ++ (pages.flatMap fun p => pageBytes job p.width p.bits) ++ jobEnd

theorem encodeJob_run (e : Encoder) (job : QpdlJob) (sink : Sink) (pages : List Page)
    (hjob : job.refused = false) (hsink : sink.Accepts) :
    ∃ e', encodeJob e job sink pages = (OK, e') ∧
      e'.sink.accepted = sink.accepted ++ jobBytes job pages := by
  obtain ⟨e1, hbegin, hidle⟩ := beginJob_idle e job sink hjob hsink
  obtain ⟨e2, hpages, hidle2⟩ := encodePages_idle hidle pages
  obtain ⟨e3, hend, -, -, hout⟩ := endJob_sent hidle2
  refine ⟨e3, by rw [encodeJob, hbegin, orReturn_ok, hpages, orReturn_ok, hend], ?_⟩
  rw [hout, jobBytes]
  simp only [List.append_assoc]

/-- A job that begins with 0 passed the argument checks. -/
theorem refused_of_beginJob {e : Encoder} {job : QpdlJob} {sink : Sink}
    (h : (qpdlBeginJob e job sink).1 = OK) : job.refused = false := by
  rw [← Bool.not_eq_true]
  intro hr
  rw [qpdlBeginJob, if_pos hr] at h
  exact absurd (show EINVAL = OK from h) (by decide)

/-- Every call of an accepted job returns 0, and the stream is the envelope,
the bytes of the pages and the end of the job.  The bytes of a page are a
function of the job, the page's width and its pixels alone. -/
theorem encodeJob_pageBytes (e : Encoder) (job : QpdlJob) (sink : Sink) (pages : List Page)
    (hjob : job.refused = false) (hsink : ∀ n, sink.answer n = 0) :
    (encodeJob e job sink pages).1 = OK ∧
      (encodeJob e job sink pages).2.sink.accepted = sink.accepted ++ (envelope job ++
        (pages.flatMap fun p => pageBytes job p.width (p.rows.map (rowBits p.width))) ++
        (REC_END_JOB :: uel)) := by
  obtain ⟨e', hrun, hout⟩ := encodeJob_run e job sink pages hjob hsink
  rw [hrun]
  exact ⟨rfl, hout⟩

/-- A page of eight pixels with one row, over a workspace that held ones. -/
def smallPage : Page where
  width := 8
  width_pos := by decide
  width_le := by decide
  workspace := List.replicate 12460 0xFF
  room := by rw [List.length_replicate]; decide
  rows := [[0x81]]
  rows_le := by decide
  row_bytes := by decide

theorem encodeJob_pageBytes_small :
    (encodeJob { job := qpdlJobDefault, sink := .accepting } qpdlJobDefault .accepting
        [smallPage, smallPage]).1 = OK ∧
      (encodeJob { job := qpdlJobDefault, sink := .accepting } qpdlJobDefault .accepting
        [smallPage, smallPage]).2.sink.accepted =
        Sink.accepting.accepted ++ (envelope qpdlJobDefault ++
          ([smallPage, smallPage].flatMap fun p =>
            pageBytes qpdlJobDefault p.width (p.rows.map (rowBits p.width))) ++
          (REC_END_JOB :: uel)) :=
  encodeJob_pageBytes _ _ _ _ (by decide) fun _ => rfl

/-! ## A page of one line too many -/

/-- The line behind 256 full bands is taken, and the end of its page fails
with ERANGE: what the bands of the first lines left is all that is sent. -/
theorem endPage_tooTall {e : Encoder} {job : QpdlJob} {base : Bytes} {width : Nat}
    {bits : List (List Bool)} (h : PageSoFar e job base width bits)
    (hfull : bits.length = 256 * 128) {row : Bytes} (hrow : (width + 7) / 8 ≤ row.length) :
    ∃ e', qpdlWriteLine e (some row) = (OK, e') ∧ qpdlEndPage e' = (ERANGE, e') ∧
      e'.sink.accepted =
        base ++ writePageHeader job.pageHeader ++ bandRecords width 0 bits := by
  obtain ⟨n, sent, pending, rfl, hsent, hpending, hmid⟩ := h
  rw [List.length_append] at hfull
  obtain rfl : pending = [] := List.eq_nil_of_length_eq_zero (by omega)
  have hn : n = 256 := by
    rw [List.length_nil] at hfull
    omega
  obtain ⟨e', hwrite, hin⟩ := writeLine_inPage hmid.toInPage hrow fun hlast => by
    rw [hmid.lines_eq] at hlast
    exact absurd hlast (by decide)
  rw [if_pos (by decide)] at hin
  refine ⟨e', hwrite, ?_, by rw [hin.accepted, List.append_nil]⟩
  rw [endPage_eq hin.inPage hin.lines_eq, if_neg (by simp),
    flushBand_range (by rw [hin.bandNumber_eq, hn]; decide)]
  rfl

theorem writeLines_append (e : Encoder) (rows rows' : List Bytes) :
    writeLines e (rows ++ rows') = orReturn (writeLines e rows) fun e => writeLines e rows' := by
  induction rows generalizing e with
  | nil => rw [writeLines, orReturn_ok, List.nil_append]
  | cons row rows ih =>
    rw [List.cons_append, writeLines, writeLines, orReturn_assoc]
    exact congrArg _ (funext ih)

/-- The calls of a job with one page, which may have any number of rows. -/
def encodeOnePage (e : Encoder) (job : QpdlJob) (sink : Sink) (width : Nat) (workspace : Bytes)
    (rows : List Bytes) : Int × Encoder :=
  orReturn (qpdlBeginJob e job sink) fun e =>
  orReturn (qpdlBeginPage e width (some workspace)) fun e =>
  orReturn (writeLines e rows) fun e =>
  orReturn (qpdlEndPage e) qpdlEndJob

/-- On a page of 256 full bands and one line more, end of page returns ERANGE
and the stream is not the one of the page. -/
theorem encodeOnePage_tooTall (e : Encoder) (job : QpdlJob) (sink : Sink)
    (hjob : job.refused = false) (hsink : sink.Accepts) {width : Nat} (hpos : 0 < width)
    (hle : width ≤ 65280) {workspace : Bytes}
    (hroom : qpdlEncoderWorkspaceBytes width ≤ workspace.length) {rows : List Bytes}
    (hlen : rows.length = 256 * 128 + 1) (hrows : ∀ row ∈ rows, (width + 7) / 8 ≤ row.length) :
    (encodeOnePage e job sink width workspace rows).1 = ERANGE ∧
      (encodeOnePage e job sink width workspace rows).2.sink.accepted ≠
        sink.accepted ++ (envelope job ++ pageBytes job width (rows.map (rowBits width)) ++
          jobEnd) := by
  obtain rfl | ⟨rows, last, rfl⟩ := rows.eq_nil_or_concat'
  · exact absurd hlen (by decide)
  rw [List.length_append, List.length_singleton, Nat.add_right_cancel_iff] at hlen
  have hlast := hrows last (by simp)
  have hrows : ∀ row ∈ rows, (width + 7) / 8 ≤ row.length :=
    fun row hrow => hrows row (List.mem_append_left _ hrow)
  obtain ⟨e1, hbegin, hidle⟩ := beginJob_idle e job sink hjob hsink
  obtain ⟨e2, hpage, h2⟩ := beginPage_soFar hidle hpos hle hroom
  obtain ⟨e3, hwrite, h3⟩ := writeLines_soFar h2 rows hrows (by simp [hlen])
  rw [List.nil_append] at h3
  obtain ⟨e4, hline, hend, hout⟩ := endPage_tooTall h3 (by rw [List.length_map, hlen]) hlast
  have hlines : writeLines e2 (rows ++ [last]) = (OK, e4) := by
    rw [writeLines_append, hwrite, orReturn_ok, writeLines, hline, orReturn_ok, writeLines]
  have hrun : encodeOnePage e job sink width workspace (rows ++ [last]) = (ERANGE, e4) := by
    rw [encodeOnePage, hbegin, orReturn_ok, hpage, orReturn_ok, hlines, orReturn_ok, hend]
    rfl
  rw [hrun]
  refine ⟨rfl, fun heq => ?_⟩
  -- the whole page is longer by the last line and by the records behind it
  have hsent : (rows.map (rowBits width)).length = 128 * 256 := by rw [List.length_map, hlen]
  have hlonger := congrArg List.length (hout.symm.trans heq)
  rw [pageBytes, List.map_append, bandRecords_append hsent] at hlonger
  simp only [List.length_append, jobEnd, List.length_cons] at hlonger
  omega

/-- Lines of a page of eight pixels, with the first pixel black. -/
def blackRows (n : Nat) : List Bytes := List.replicate n [0x80]

theorem length_blackRows (n : Nat) : (blackRows n).length = n := List.length_replicate

theorem blackRows_bytes (n : Nat) : ∀ row ∈ blackRows n, (8 + 7) / 8 ≤ row.length := by
  intro row hrow
  rw [List.eq_of_mem_replicate hrow]
  decide

/-- A page of eight pixels and 32769 black lines. -/
theorem encodeOnePage_tooTall_black :
    (encodeOnePage { job := qpdlJobDefault, sink := .accepting } qpdlJobDefault .accepting 8
        (List.replicate 12460 0) (blackRows (256 * 128 + 1))).1 = ERANGE ∧
      (encodeOnePage { job := qpdlJobDefault, sink := .accepting } qpdlJobDefault .accepting 8
        (List.replicate 12460 0) (blackRows (256 * 128 + 1))).2.sink.accepted ≠
        Sink.accepting.accepted ++ (envelope qpdlJobDefault ++ pageBytes qpdlJobDefault 8
          ((blackRows (256 * 128 + 1)).map (rowBits 8)) ++ jobEnd) := by
  have hroom : qpdlEncoderWorkspaceBytes 8 ≤ (List.replicate 12460 (0 : UInt8)).length := by
    rw [List.length_replicate]
    decide
  exact encodeOnePage_tooTall _ _ _ (by decide) (fun _ => rfl) (by decide) (by decide) hroom
    (length_blackRows _) (blackRows_bytes _)

end Airbridge.Qpdl
