import Airbridge.Qpdl.JobStream

/-!
# Reading the envelope back

The walker reports the lines of the envelope and the records behind it
exactly when no text of the job contains `ENTER LANGUAGE`.  Otherwise it takes
the line with that text for the last one and stops at the next, with
`ERECORD`.
-/

namespace Airbridge.Qpdl

/-! ## The lines as the walker sees them -/

/-- The UEL in front of the stream arrives glued to the first line. -/
def glueUel : List Bytes → List Bytes
  | [] => []
  | line :: lines => (uel ++ line) :: lines

/-- The lines the walker reports for a job. -/
def reportedLines (job : QpdlJob) : List Bytes := glueUel (pjlLines job)

/-- No text of the job holds the mark the walker looks for. -/
def QpdlJob.Unmarked (job : QpdlJob) : Prop :=
  (∀ t, job.paperType = some t → ¬enterLanguage <:+: t) ∧
    ∀ s, job.producer = some s → ¬enterLanguage <:+: s

theorem pjlBody_ne_nil (job : QpdlJob) : pjlBody job ≠ [] := by
  simp [pjlBody]

theorem reportedLines_eq (job : QpdlJob) :
    reportedLines job = glueUel (pjlBody job) ++ [enterLine] := by
  rw [reportedLines, pjlLines]
  cases h : pjlBody job with
  | nil => exact absurd h (pjlBody_ne_nil job)
  | cons line lines => rfl

theorem linesBytes_append (a b : List Bytes) :
    linesBytes (a ++ b) = linesBytes a ++ linesBytes b :=
  List.flatMap_append

theorem linesBytes_reported (job : QpdlJob) : linesBytes (reportedLines job) = envelope job := by
  rw [reportedLines, envelope]
  cases h : pjlLines job with
  | nil => simp [pjlLines] at h
  | cons line lines => simp [glueUel, linesBytes]

/-! ## Text lines -/

/-- Bytes that may stand inside a line. -/
def isLineByte (c : UInt8) : Bool := isTextByte c && c != 0x0A

theorem isTextLine_of_all {line : Bytes} (h : line.all isLineByte = true)
    (hlen : line.length ≤ 4094) : IsTextLine line := by
  rw [List.all_eq_true] at h
  simp only [isLineByte, Bool.and_eq_true, bne_iff_ne, ne_eq] at h
  exact ⟨fun c hc => (h c hc).1, fun hmem => (h _ hmem).2 rfl, hlen⟩

theorem Plain.all_isLineByte {s : Bytes} {max : Nat} (h : Plain s max) :
    s.all isLineByte = true := by
  rw [List.all_eq_true]
  intro c hc
  exact Bits.forall_byte (P := fun c => 0x20 ≤ c ∧ c ≤ 0x7e → isLineByte c = true)
    (by decide +kernel) c (h.printable c hc)

/-- A fixed text and a free one make a line. -/
theorem isTextLine_append {p s : Bytes} {max : Nat} (hp : p.all isLineByte = true)
    (hs : Plain s max) (hlen : p.length + max ≤ 4094) : IsTextLine (p ++ s) := by
  have := hs.le
  refine isTextLine_of_all ?_ (by rw [List.length_append]; omega)
  rw [List.all_append, hp, hs.all_isLineByte]
  rfl

/-! ## Where the mark can stand -/

/-- Behind a text that ends in none of its beginnings, the mark can only stand
in what follows. -/
theorem enterLanguage_infix_append {p s : Bytes} (hp : ¬enterLanguage <:+: p)
    (hk : ∀ k < 14, 0 < k → ¬enterLanguage.take k <:+ p) :
    enterLanguage <:+: p ++ s ↔ enterLanguage <:+: s := by
  constructor
  · intro h
    rcases List.infix_append_iff_ne_nil.mp h with h | h | ⟨a, b, ha, hb, hab, hsuf, -⟩
    · exact absurd h hp
    · exact h
    · have hlen : a.length + b.length = 14 := by
        have := congrArg List.length hab
        rw [List.length_append] at this
        exact this.symm
      have hapos := List.length_pos_of_ne_nil ha
      have hbpos := List.length_pos_of_ne_nil hb
      refine absurd ?_ (hk a.length (by omega) hapos)
      rw [hab, List.take_left' rfl]
      exact hsuf
  · exact List.infix_append_of_infix_right

/-- The walker's test on a line that starts with a fixed text. -/
theorem isEnterLine_append {p s : Bytes} (hlen : 19 ≤ p.length) (hp : ¬enterLanguage <:+: p)
    (hk : ∀ k < 14, 0 < k → ¬enterLanguage.take k <:+ p) :
    isEnterLine (p ++ s) = true ↔ enterLanguage <:+: s := by
  rw [isEnterLine, decide_eq_true_iff, enterLanguage_infix_append hp hk, List.length_append]
  exact ⟨fun h => h.2, fun h => ⟨by omega, h⟩⟩

/-! ## The lines of a job -/

/-- The lines without a text of the job in them. -/
def fixedLines : List Bytes :=
  [ascii "@PJL COMMENT Model Name : Samsung M2020 Series",
   ascii "@PJL SET XIGNOREFF=ON", ascii "@PJL SET XIGNOREFF=OFF", [],
   ascii "@PJL SET RESOLUTION = 600", ascii "@PJL SET RESOLUTION = 1200",
   ascii "@PJL SET BITSPERPIXEL = 1", ascii "@PJL SET DUPLEX = OFF",
   ascii "@PJL SET DUPLEX = MANUAL", ascii "@PJL SET BINDING = LONGEDGE",
   ascii "@PJL SET BINDING = SHORTEDGE"]

/-- Every line of the envelope before its last one. -/
theorem mem_pjlBody {job : QpdlJob} (h : job.Accepted) {line : Bytes} (hline : line ∈ pjlBody job) :
    line ∈ fixedLines ∨
    (∃ s, job.serviceDate = some s ∧ line = ascii "@PJL DEFAULT SERVICEDATE=" ++ s) ∨
    (∃ s, job.producer = some s ∧ line = ascii "@PJL COMMENT Producer : " ++ s) ∨
    ∃ t, job.paperType = some t ∧ line = ascii "@PJL SET PAPERTYPE = " ++ t := by
  obtain ⟨t, ht, -⟩ := h.paperType
  simp only [pjlBody, ht, List.mem_append, List.mem_cons, List.not_mem_nil, or_false,
    Option.mem_toList, Option.map_eq_some_iff, Option.getD_some,
    List.mem_ite_nil_right, or_assoc] at hline
  rcases hline with ⟨s, hs, rfl⟩ | rfl | ⟨s, hs, rfl⟩ | rfl | rfl | rfl | ⟨-, rfl⟩ | rfl | rfl |
    ⟨-, rfl⟩
  · exact .inr (.inl ⟨s, hs, rfl⟩)
  · exact .inl (by simp [fixedLines])
  · exact .inr (.inr (.inl ⟨s, hs, rfl⟩))
  · cases job.skipBlankPages <;> exact .inl (by simp [fixedLines, ← ascii_append])
  · exact .inl (by simp [fixedLines])
  · have h600 : toString 600 = "600" := rfl
    have h1200 : toString 1200 = "1200" := rfl
    rcases h.dpi with hd | hd
    · left
      simp only [hd, h600, ← ascii_append]
      simp [fixedLines]
    · left
      simp only [hd, h1200, ← ascii_append]
      simp [fixedLines]
  · exact .inl (by simp [fixedLines])
  · exact .inr (.inr (.inr ⟨t, ht, rfl⟩))
  · split_ifs <;> exact .inl (by simp [fixedLines, ← ascii_append])
  · split_ifs <;> exact .inl (by simp [fixedLines, ← ascii_append])

/-- The first line names the date or the model. -/
theorem pjlBody_head (job : QpdlJob) :
    ∃ line lines, pjlBody job = line :: lines ∧
      (line = ascii "@PJL COMMENT Model Name : Samsung M2020 Series" ∨
        ∃ s, job.serviceDate = some s ∧ line = ascii "@PJL DEFAULT SERVICEDATE=" ++ s) := by
  cases h : job.serviceDate with
  | none =>
    simp only [pjlBody, h, Option.map_none, Option.toList_none, List.nil_append, List.cons_append]
    exact ⟨_, _, rfl, .inl rfl⟩
  | some s =>
    simp only [pjlBody, h, Option.map_some, Option.toList_some, List.cons_append]
    exact ⟨_, _, rfl, .inr ⟨s, rfl, rfl⟩⟩

/-- A fixed line is text without the mark, with or without the UEL glued to
it. -/
theorem fixedLines_spec {p : Bytes} (line : Bytes) (hp : p = [] ∨ p = uel)
    (hline : line ∈ fixedLines) :
    IsTextLine (p ++ line) ∧ isEnterLine (p ++ line) = false := by
  have hall : ∀ p ∈ [[], uel], ∀ line ∈ fixedLines, (p ++ line).all isLineByte = true ∧
      (p ++ line).length ≤ 4094 ∧ isEnterLine (p ++ line) = false := by
    unfold fixedLines uel
    repeat rw [ascii_ofList]
    decide +kernel
  obtain ⟨htext, hlen, henter⟩ := hall p (by simpa using hp) line hline
  exact ⟨isTextLine_of_all htext hlen, henter⟩

/-- So is the line with the date, which is too short to hold the mark. -/
theorem dateLine_spec {s p : Bytes} (hp : p = [] ∨ p = uel) (hs : Plain s 8) :
    IsTextLine (p ++ (ascii "@PJL DEFAULT SERVICEDATE=" ++ s)) ∧
      isEnterLine (p ++ (ascii "@PJL DEFAULT SERVICEDATE=" ++ s)) = false := by
  have hall : ∀ p ∈ [[], uel], (p ++ ascii "@PJL DEFAULT SERVICEDATE=").all isLineByte = true ∧
      (p ++ ascii "@PJL DEFAULT SERVICEDATE=").length ≤ 34 ∧
      19 ≤ (p ++ ascii "@PJL DEFAULT SERVICEDATE=").length ∧
      ¬enterLanguage <:+: p ++ ascii "@PJL DEFAULT SERVICEDATE=" ∧
      ∀ k < 14, 0 < k → ¬enterLanguage.take k <:+ p ++ ascii "@PJL DEFAULT SERVICEDATE=" := by
    unfold enterLanguage uel
    repeat rw [ascii_ofList]
    decide +kernel
  obtain ⟨htext, hlen, h19, hno, hk⟩ := hall p (by simpa using hp)
  rw [← List.append_assoc]
  refine ⟨isTextLine_append htext hs (by omega), ?_⟩
  rw [← Bool.not_eq_true, isEnterLine_append h19 hno hk]
  intro hinfix
  have := hinfix.length_le
  have h14 : enterLanguage.length = 14 := by decide
  have := hs.le
  omega

/-- The line with the producer or the paper type is a line the walker stops
at exactly when its text holds the mark. -/
theorem freeLine_spec {s p : Bytes} {max : Nat} (hmax : max ≤ 128)
    (hp : p = ascii "@PJL COMMENT Producer : " ∨ p = ascii "@PJL SET PAPERTYPE = ")
    (hs : Plain s max) :
    IsTextLine (p ++ s) ∧ (isEnterLine (p ++ s) = true ↔ enterLanguage <:+: s) := by
  have hall : ∀ p ∈ [ascii "@PJL COMMENT Producer : ", ascii "@PJL SET PAPERTYPE = "],
      p.all isLineByte = true ∧ p.length ≤ 24 ∧ 19 ≤ p.length ∧ ¬enterLanguage <:+: p ∧
        ∀ k < 14, 0 < k → ¬enterLanguage.take k <:+ p := by
    unfold enterLanguage
    repeat rw [ascii_ofList]
    decide +kernel
  obtain ⟨htext, hlen, h19, hno, hk⟩ := hall p (by simpa using hp)
  exact ⟨isTextLine_append htext hs (by omega), isEnterLine_append h19 hno hk⟩

/-- Every line of the envelope but the last is text, and without the mark
when the job's texts are. -/
theorem reported_spec {job : QpdlJob} (h : job.Accepted) {line : Bytes}
    (hline : line ∈ glueUel (pjlBody job)) :
    IsTextLine line ∧ (job.Unmarked → isEnterLine line = false) := by
  have hplain (line : Bytes) (hline : line ∈ pjlBody job) :
      IsTextLine line ∧ (job.Unmarked → isEnterLine line = false) := by
    rcases mem_pjlBody h hline with hf | ⟨s, hs, rfl⟩ | ⟨s, hs, rfl⟩ | ⟨t, ht, rfl⟩
    · have := fixedLines_spec line (.inl rfl) hf
      exact ⟨this.1, fun _ => this.2⟩
    · have := dateLine_spec (.inl rfl) (h.serviceDate s hs)
      exact ⟨this.1, fun _ => this.2⟩
    · obtain ⟨htext, hiff⟩ := freeLine_spec (le_refl 128) (.inl rfl) (h.producer s hs)
      exact ⟨htext, fun hu => by rw [← Bool.not_eq_true, hiff]; exact hu.2 s hs⟩
    · obtain ⟨t', ht', hp⟩ := h.paperType
      obtain rfl : t' = t := Option.some.inj (ht'.symm.trans ht)
      obtain ⟨htext, hiff⟩ := freeLine_spec (by omega) (.inr rfl) hp
      exact ⟨htext, fun hu => by rw [← Bool.not_eq_true, hiff]; exact hu.1 t' ht⟩
  obtain ⟨first, lines, hbody, hfirst⟩ := pjlBody_head job
  rw [hbody, glueUel, List.mem_cons] at hline
  rcases hline with rfl | hline
  · rcases hfirst with rfl | ⟨s, hs, rfl⟩
    · have := fixedLines_spec (ascii "@PJL COMMENT Model Name : Samsung M2020 Series")
        (.inr rfl) (by decide)
      exact ⟨this.1, fun _ => this.2⟩
    · have := dateLine_spec (.inr rfl) (h.serviceDate s hs)
      exact ⟨this.1, fun _ => this.2⟩
  · exact hplain line (by rw [hbody]; exact List.mem_cons_of_mem _ hline)

/-- A marked text makes a line that the walker stops at. -/
theorem exists_enterLine {job : QpdlJob} (h : job.Accepted) (hmark : ¬job.Unmarked) :
    ∃ line ∈ glueUel (pjlBody job), isEnterLine line = true := by
  obtain ⟨t, ht, hplain⟩ := h.paperType
  have hproducer (s : Bytes) (hs : job.producer = some s) :
      ascii "@PJL COMMENT Producer : " ++ s ∈ glueUel (pjlBody job) := by
    cases hd : job.serviceDate <;> simp [pjlBody, glueUel, hd, hs]
  have hpaper : ascii "@PJL SET PAPERTYPE = " ++ t ∈ glueUel (pjlBody job) := by
    cases hd : job.serviceDate <;> simp [pjlBody, glueUel, hd, ht]
  rw [QpdlJob.Unmarked, not_and_or] at hmark
  push Not at hmark
  rcases hmark with ⟨t', ht', hinfix⟩ | ⟨s, hs, hinfix⟩
  · obtain rfl : t = t' := Option.some.inj (ht.symm.trans ht')
    exact ⟨_, hpaper, (freeLine_spec (by omega) (.inr rfl) hplain).2.mpr hinfix⟩
  · exact ⟨_, hproducer s hs, (freeLine_spec (le_refl 128) (.inl rfl) (h.producer s hs)).2.mpr
      hinfix⟩

/-- Behind its first line, the envelope's lines start with `@` or are empty. -/
theorem pjlLines_tail {job : QpdlJob} {line : Bytes} (hline : line ∈ pjlLines job) :
    line = [] ∨ ∃ rest, line = 0x40 :: rest := by
  simp only [pjlLines, pjlBody, enterLine, List.mem_append, List.mem_cons, List.not_mem_nil,
    or_false, Option.mem_toList, Option.map_eq_some_iff, List.mem_ite_nil_right, or_assoc] at hline
  rcases hline with ⟨s, hs, rfl⟩ | rfl | ⟨s, hs, rfl⟩ | rfl | rfl | rfl | ⟨-, rfl⟩ | rfl | rfl |
    ⟨-, rfl⟩ | rfl
  all_goals first | exact .inl rfl | exact .inr ⟨_, rfl⟩

/-! ## Walking a job -/

/-- The first enter line of a list of text lines ends the envelope. -/
theorem emitLines_enter (lines : List Bytes) (line rest : Bytes)
    (htext : ∀ l ∈ lines, IsTextLine l) (hplain : ∀ l ∈ lines, isEnterLine l = false)
    (hline : IsTextLine line) (henter : isEnterLine line = true) :
    emitLines true 0 (linesBytes (lines ++ [line]) ++ rest) =
      ⟨lineEvents 0 (lines ++ [line]), (linesBytes (lines ++ [line])).length, rest, true⟩ := by
  have hsplit : linesBytes (lines ++ [line]) ++ rest = linesBytes lines ++ (line ++ crlf ++ rest) := by
    simp [linesBytes]
  rw [hsplit, emitLines_lines _ _ _ _ htext hplain, emitLines_crlf _ _ _ hline, henter, lineEvents_append]
  simp [lineEvents, linesBytes, crlf, Nat.add_assoc]

theorem isTextLine_enterLine : IsTextLine enterLine ∧ isEnterLine enterLine = true :=
  ⟨isTextLine_of_all (by decide) (by decide), by decide⟩

/-- A job with unmarked texts is walked to its end: its lines, its records and
the end of the job. -/
theorem walk_job {job : QpdlJob} (h : job.Accepted) (hu : job.Unmarked) (rs : List Record) :
    walk (envelope job ++ rs.flatMap Record.bytes ++ jobEnd) =
      ⟨lineEvents 0 (reportedLines job) ++ Record.events (envelope job).length rs ++
        [.endJob ((envelope job).length + (rs.flatMap Record.bytes).length),
          .pjlLine ((envelope job).length + (rs.flatMap Record.bytes).length + 1) uel], OK, none⟩ := by
  have hlines := emitLines_enter (glueUel (pjlBody job)) enterLine
    (rs.flatMap Record.bytes ++ jobEnd) (fun l hl => (reported_spec h hl).1)
    (fun l hl => (reported_spec h hl).2 hu) isTextLine_enterLine.1 isTextLine_enterLine.2
  rw [← reportedLines_eq, linesBytes_reported] at hlines
  rw [walk, List.append_assoc, hlines]
  simp only [Bool.not_true, Bool.false_eq_true, if_false]
  rw [walkRecords_records, jobEnd, walkRecords_endJob]
  simp

/-- The record loop refuses what is not a record type. -/
theorem walkRecords_at (pos : Nat) (c : UInt8) (tail : Bytes) (hc : c = 0x40 ∨ c = 0x0D) :
    walkRecords pos (c :: tail) = fail pos ERECORD := by
  rcases hc with rfl | rfl <;>
    rw [walkRecords, if_neg (by decide), if_neg (by decide), if_neg (by decide), if_neg (by decide)]

/-- With a marked text the walker ends the envelope early and finds a line
where it expects a record. -/
theorem walk_marked {job : QpdlJob} (h : job.Accepted) (hmark : ¬job.Unmarked) (rest : Bytes) :
    (walk (envelope job ++ rest)).rc = ERECORD := by
  obtain ⟨line, hmem, henter⟩ := exists_enterLine h hmark
  obtain ⟨found, hfind⟩ : ∃ l, (glueUel (pjlBody job)).find? isEnterLine = some l :=
    Option.isSome_iff_exists.mp (List.find?_isSome.mpr ⟨line, hmem, henter⟩)
  obtain ⟨hfound, before, behind, hsplit, hbefore⟩ := List.find?_eq_some_iff_append.mp hfind
  have hin (l : Bytes) (hl : l ∈ before ++ found :: behind) : l ∈ glueUel (pjlBody job) :=
    hsplit ▸ hl
  -- the line behind the one found is a line of the job that is not its first
  obtain ⟨next, more, hnext, hjob⟩ : ∃ next more, behind ++ [enterLine] = next :: more ∧
      next ∈ pjlLines job := by
    obtain ⟨first, lines, hbody, -⟩ := pjlBody_head job
    have hbehind : ∀ l ∈ behind, l ∈ lines := by
      rw [hbody, glueUel] at hsplit
      cases before with
      | nil => simp [(List.cons.inj hsplit).2]
      | cons b before =>
        intro l hl
        rw [(List.cons.inj hsplit).2]
        simp [hl]
    cases behind with
    | nil => exact ⟨enterLine, [], rfl, by simp [pjlLines]⟩
    | cons l behind =>
      refine ⟨l, _, rfl, ?_⟩
      rw [pjlLines, hbody]
      simp [hbehind l List.mem_cons_self]
  obtain ⟨c, tail, hc, hcons⟩ : ∃ c tail, (c = 0x40 ∨ c = 0x0D) ∧
      linesBytes (next :: more) ++ rest = c :: tail := by
    rcases pjlLines_tail hjob with rfl | ⟨tl, rfl⟩
    · exact ⟨0x0D, _, .inr rfl, rfl⟩
    · exact ⟨0x40, _, .inl rfl, rfl⟩
  have henv : envelope job ++ rest = linesBytes (before ++ [found]) ++ (c :: tail) := by
    rw [← linesBytes_reported, reportedLines_eq, hsplit, ← hcons, ← hnext, ← List.append_assoc,
      ← linesBytes_append]
    simp
  have hlines := emitLines_enter before found (c :: tail)
    (fun l hl => (reported_spec h (hin l (by simp [hl]))).1)
    (fun l hl => by simpa using hbefore l hl) (reported_spec h (hin found (by simp))).1 hfound
  rw [henv, walk, hlines]
  simp only [Bool.not_true, Bool.false_eq_true, if_false]
  rw [walkRecords_at _ _ _ hc]
  rfl

/-! ## Envelope agreement -/

/-- A job without pages, when `m2022_qpdl_begin_job` accepts it, is walked
line by line up to the `ENTER LANGUAGE=QPDL` line and then to its end exactly
when neither its paper type nor its producer contains `ENTER LANGUAGE`.  A
stream of any other accepted job is refused. -/
theorem walk_encodeJob_iff (e : Encoder) (job : QpdlJob)
    (hjob : (qpdlBeginJob e job .accepting).1 = OK) :
    let bytes := (encodeJob e job .accepting []).2.sink.accepted
    (walk bytes = ⟨lineEvents 0 (reportedLines job) ++
        [.endJob (envelope job).length, .pjlLine ((envelope job).length + 1) uel], OK, none⟩ ↔
      (∀ t, job.paperType = some t → ¬enterLanguage <:+: t) ∧
        ∀ s, job.producer = some s → ¬enterLanguage <:+: s) ∧
    (¬job.Unmarked → (walk bytes).rc = ERECORD) := by
  intro bytes
  have haccepted := refused_of_beginJob hjob
  have hbytes : bytes = envelope job ++ jobEnd := by
    obtain ⟨e', hrun, hout⟩ := encodeJob_run e job .accepting [] haccepted fun _ => rfl
    simp only [bytes, hrun, hout, jobBytes, List.flatMap_nil, List.append_nil]
    rfl
  have hmarked (hu : ¬job.Unmarked) : (walk bytes).rc = ERECORD := by
    rw [hbytes]
    exact walk_marked (QpdlJob.accepted haccepted) hu jobEnd
  refine ⟨⟨fun hwalk => ?_, fun hu => ?_⟩, hmarked⟩
  · by_contra hu
    have := hmarked hu
    rw [hwalk] at this
    exact absurd (show OK = ERECORD from this) (by decide)
  · have := walk_job (QpdlJob.accepted haccepted) hu []
    simpa [hbytes, Record.events] using this

/-- A duplex job with every text of its own. -/
def thickJob : QpdlJob :=
  { qpdlJobDefault with
    paperType := some (ascii "THICK, ENTER side up")
    duplex := 2
    serviceDate := some (ascii "20260131")
    producer := some (ascii "Airbridge LANGUAGE 1") }

/-- Neither the paper type nor the producer has the whole mark in it. -/
theorem walk_encodeJob_iff_thick :
    let bytes := (encodeJob { job := qpdlJobDefault, sink := .accepting } thickJob .accepting
      []).2.sink.accepted
    walk bytes = ⟨lineEvents 0 (reportedLines thickJob) ++
      [.endJob (envelope thickJob).length, .pjlLine ((envelope thickJob).length + 1) uel], OK,
        none⟩ := by
  have haccepted : thickJob.refused = false := by
    decide
  have hbegin : (qpdlBeginJob { job := qpdlJobDefault, sink := .accepting } thickJob
      .accepting).1 = OK := by
    obtain ⟨e', hbegin, -⟩ := beginJob_idle { job := qpdlJobDefault, sink := .accepting }
      thickJob .accepting haccepted fun _ => rfl
    rw [hbegin]
  have htype : ¬enterLanguage <:+: ascii "THICK, ENTER side up" := by
    decide
  have hproducer : ¬enterLanguage <:+: ascii "Airbridge LANGUAGE 1" := by
    decide
  refine (walk_encodeJob_iff _ thickJob hbegin).1.mpr ⟨fun t ht => ?_, fun s hs => ?_⟩
  · rw [← Option.some_inj.mp ht]
    exact htype
  · rw [← Option.some_inj.mp hs]
    exact hproducer

/-- The default job with the mark for its paper type. -/
def markedJob : QpdlJob := { qpdlJobDefault with paperType := some (ascii "ENTER LANGUAGE") }

/-- `m2022_qpdl_begin_job` accepts the marked job, and the walker refuses its
stream. -/
theorem walk_markedJob :
    (qpdlBeginJob { job := markedJob, sink := .accepting } markedJob .accepting).1 = OK ∧
      (walk (encodeJob { job := markedJob, sink := .accepting } markedJob .accepting
        []).2.sink.accepted).rc = ERECORD := by
  have haccepted : markedJob.refused = false := by decide
  have hmark : ¬markedJob.Unmarked := fun hu => hu.1 _ rfl (List.infix_refl _)
  constructor
  · obtain ⟨e', hbegin, -⟩ := beginJob_idle { job := markedJob, sink := .accepting }
      markedJob .accepting haccepted fun _ => rfl
    rw [hbegin]
  · obtain ⟨e', hrun, hout⟩ := encodeJob_run { job := markedJob, sink := .accepting } markedJob
      .accepting [] haccepted fun _ => rfl
    rw [hrun, hout, jobBytes, List.flatMap_nil, List.append_nil]
    exact walk_marked (QpdlJob.accepted haccepted) hmark jobEnd

end Airbridge.Qpdl
