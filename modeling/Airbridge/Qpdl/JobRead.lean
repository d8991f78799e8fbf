import Airbridge.Qpdl.EnvelopeRead

/-!
# Reading a job back

The walker and the decoder against the whole-page encoder.  A page is a page
record, one band record for each group of 128 rows with a black pixel, and an
end-of-page record (`pageRecords`).  `PageRead` says what a page looks like to
someone who only sees the walker's callbacks, down to the pixels, and
`walk_encodeJob` is the round trip of whole jobs.
-/

namespace Airbridge.Qpdl

/-! ## Groups of rows -/

/-- The rows of group `k`. -/
def group (rows : List (List Bool)) (k : Nat) : List (List Bool) := (rows.drop (128 * k)).take 128

/-- The number of groups. -/
def groups (rows : List (List Bool)) : Nat := (rows.length + 127) / 128

/-- The groups that become a band. -/
def blackGroups (rows : List (List Bool)) : List Nat :=
  (List.range (groups rows)).filter fun k => !isWhite (group rows k)

theorem bandRecords_eq_flatMap (width number : Nat) (rows : List (List Bool)) :
    bandRecords width number rows =
      (List.range (groups rows)).flatMap fun k => bandRecord width (number + k) (group rows k) := by
  fun_induction bandRecords width number rows with
  | case1 number => rfl
  | case2 number rows h ih =>
    have hpos := List.length_pos_of_ne_nil h
    have hgroups : groups rows = groups (rows.drop 128) + 1 := by
      rw [groups, groups, List.length_drop]
      omega
    have hgroup (k : Nat) : group (rows.drop 128) k = group rows (k + 1) := by
      rw [group, group, List.drop_drop, Nat.mul_add, Nat.mul_one, Nat.add_comm 128]
    rw [ih, hgroups, List.range_succ_eq_map, List.flatMap_cons, List.flatMap_map]
    simp only [hgroup, Nat.add_zero, Nat.add_assoc, Nat.add_comm 1, Nat.succ_eq_add_one]
    rfl

theorem getD_group (rows : List (List Bool)) (k : Nat) {i : Nat} (hi : i < 128) :
    (group rows k).getD i [] = rows.getD (128 * k + i) [] := by
  rw [group, List.getD_eq_getElem?_getD, List.getElem?_take_of_lt hi, List.getElem?_drop,
    ← List.getD_eq_getElem?_getD]

/-- A group is black when one of its rows has a black pixel. -/
theorem mem_blackGroups {rows : List (List Bool)} {k : Nat} :
    k ∈ blackGroups rows ↔ ∃ y x, y / 128 = k ∧ (rows.getD y []).getD x false = true := by
  have hblack : isWhite (group rows k) = false ↔
      ∃ row ∈ group rows k, true ∈ row := by
    rw [← Bool.not_eq_true, isWhite, List.all_eq_true]
    push Not
    simp
  rw [blackGroups, List.mem_filter, List.mem_range, Bool.not_eq_true', hblack]
  constructor
  · rintro ⟨-, row, hrow, htrue⟩
    obtain ⟨i, hi, rfl⟩ := List.mem_iff_getElem.mp hrow
    obtain ⟨x, hx, he⟩ := List.mem_iff_getElem.mp htrue
    have hi128 : i < 128 := by
      rw [group, List.length_take] at hi
      omega
    refine ⟨128 * k + i, x, by omega, ?_⟩
    rw [← getD_group rows k hi128, List.getD_eq_getElem _ _ hi, List.getD_eq_getElem _ _ hx, he]
  · rintro ⟨y, x, rfl, he⟩
    have hx : x < (rows.getD y []).length := by
      by_contra hx
      rw [List.getD_eq_default _ _ (by omega)] at he
      cases he
    have hy : y < rows.length := by
      by_contra hy
      rw [List.getD_eq_default rows _ (by omega)] at hx
      simp at hx
    have hrow := getD_group rows (y / 128) (show y % 128 < 128 by omega)
    rw [show 128 * (y / 128) + y % 128 = y by omega] at hrow
    have hi : y % 128 < (group rows (y / 128)).length := by
      rw [group, List.length_take, List.length_drop]
      omega
    refine ⟨by rw [groups]; omega, rows.getD y [], ?_, ?_⟩
    · rw [← hrow, List.getD_eq_getElem _ _ hi]
      exact List.getElem_mem hi
    · rw [List.getD_eq_getElem _ _ hx] at he
      rw [← he]
      exact List.getElem_mem hx

/-! ## The records of a page -/

/-- A payload is short enough for its length field. -/
theorem length_bandPayload_lt {width : Nat} (hw : width ≤ 65280) (rows : Bytes) :
    (bandPayload width rows).length < 2 ^ 32 := by
  have := (codec11Encode_band width rows).2
  rw [codec11EncodeBound, bandBytes] at this
  omega

/-- The band record of group `k`. -/
def groupRecord (width : Nat) (hw : width ≤ 65280) (rows : List (List Bool)) (k : Nat) : Record :=
  .band (bandHeader width k (bandPayload width (bandRows width (group rows k))))
    (bandPayload width (bandRows width (group rows k))) (by
      have := length_bandPayload_lt hw (bandRows width (group rows k))
      rw [bandHeader, UInt32.toNat_ofNat']
      omega)

/-- The records of a page. -/
def pageRecords (job : QpdlJob) (p : Page) : List Record :=
  .page job.pageHeader ::
    ((blackGroups p.bits).map (groupRecord p.width p.width_le p.bits) ++ [.endPage job.copies])

/-- The band records of a page are the bytes of its groups. -/
theorem flatMap_groupRecords (p : Page) :
    ((blackGroups p.bits).map (groupRecord p.width p.width_le p.bits)).flatMap Record.bytes =
      bandRecords p.width 0 p.bits := by
  have hbands (ks : List Nat) :
      ks.flatMap (fun k => bandRecord p.width (0 + k) (group p.bits k)) =
        ((ks.filter fun k => !isWhite (group p.bits k)).map
          (groupRecord p.width p.width_le p.bits)).flatMap Record.bytes := by
    induction ks with
    | nil => rfl
    | cons k ks ih =>
      rw [List.flatMap_cons, ih, bandRecord, Nat.zero_add]
      cases hw : isWhite (group p.bits k) with
      | true => simp [hw]
      | false => simp [hw, groupRecord, Record.bytes]
  rw [bandRecords_eq_flatMap, hbands, ← blackGroups]

/-- The bytes of a page are its records. -/
theorem flatMap_pageRecords (job : QpdlJob) (p : Page) :
    (pageRecords job p).flatMap Record.bytes = pageBytes job p.width p.bits := by
  rw [pageBytes, ← flatMap_groupRecords, pageRecords]
  simp [Record.bytes]

/-! ## Decoding a band -/

/-- A band as the walker reports it. -/
structure ReadBand where
  offset : Nat
  header : BandHeader
  payload : Bytes

def ReadBand.event (b : ReadBand) : Event := .band b.offset b.header b.payload

/-- Pixel `x` of line `y`: white outside the page. -/
def Page.pixel (p : Page) (y x : Nat) : Bool :=
  decide (x < p.width) && Bits.get (p.rows.getD y []) x

/-- A reported band is 128 lines of the page: with any capacity of at least
its size the payload decodes to the band, and the band's rows are the page's
lines from `128 * number` on. -/
structure BandRead (p : Page) (b : ReadBand) : Prop where
  height : b.header.height = 128
  width : b.header.width.toNat = (p.width + 255) / 256 * 256
  decoded : ∀ cap, b.header.width.toNat / 8 * 128 ≤ cap →
    let r := codec11Decode b.payload cap
    r.rc = OK ∧ r.out.length = b.header.width.toNat / 8 * 128 ∧
      ∀ rows : Bytes, rows.length = b.header.width.toNat / 8 * 128 →
        ∀ line < 128, ∀ x < b.header.width.toNat,
          Bits.get (Buffer.load (bandToRows r.out (b.header.width.toNat / 8) rows)
            (line * (b.header.width.toNat / 8)) (b.header.width.toNat / 8)) x =
              p.pixel (128 * b.header.number.toNat + line) x

theorem getD_bits (p : Page) (y x : Nat) : (p.bits.getD y []).getD x false = p.pixel y x := by
  rw [Page.pixel, Page.bits]
  by_cases hy : y < p.rows.length
  · rw [List.getD_eq_getElem (p.rows.map _) _ (by simpa using hy), List.getElem_map, getD_rowBits,
      List.getD_eq_getElem _ _ hy]
  · rw [List.getD_eq_default (p.rows.map _) _ (by simpa using hy),
      List.getD_eq_default p.rows _ (by omega), Bits.get_of_le (Nat.zero_le _), Bool.and_false]
    rfl

/-- The lines of a group's row buffer are its rows. -/
theorem get_bandRows {width line x : Nat} (rows : List (List Bool)) (hx : x < 8 * rowBytes width) :
    Bits.get (Buffer.load (bandRows width rows) (line * rowBytes width) (rowBytes width)) x =
      (rows.getD line []).getD x false := by
  by_cases hlt : line < rows.length
  · rw [bandRows, Buffer.load_flatMap (length_packRow width) _ _ hlt, packRow, Bits.get_pack _ hx,
      List.getD_eq_getElem _ _ hlt]
  · have hfront := length_flatMap_packRow width rows
    have hle : rows.length * rowBytes width ≤ line * rowBytes width :=
      Nat.mul_le_mul_right _ (by omega)
    rw [List.getD_eq_default rows _ (by omega), List.getD_nil]
    refine (Bits.all_zero_iff _).mp (fun b hb => ?_) x
    rw [bandRows, Buffer.load, List.drop_append, List.drop_eq_nil_of_le (by omega),
      List.nil_append] at hb
    exact List.eq_of_mem_replicate (List.mem_of_mem_drop (List.mem_of_mem_take hb))

/-- The band of group `k`, reported at `offset`. -/
def groupBand (p : Page) (k offset : Nat) : ReadBand where
  offset := offset
  header := bandHeader p.width k (bandPayload p.width (bandRows p.width (group p.bits k)))
  payload := bandPayload p.width (bandRows p.width (group p.bits k))

/-- The number of a group fits its field. -/
theorem groupBand_number (p : Page) {k : Nat} (hk : k ∈ blackGroups p.bits) (offset : Nat) :
    (groupBand p k offset).header.number.toNat = k := by
  have hmem := List.mem_range.mp (List.mem_of_mem_filter hk)
  have hrows := p.rows_le
  rw [groups, Page.bits, List.length_map] at hmem
  rw [groupBand, bandHeader, UInt8.toNat_ofNat']
  omega

/-- The record of a group reads as its lines. -/
theorem bandRead_group (p : Page) {k : Nat} (hk : k ∈ blackGroups p.bits) (offset : Nat) :
    BandRead p (groupBand p k offset) := by
  have hle := p.width_le
  have hwidth : (groupBand p k offset).header.width.toNat = (p.width + 255) / 256 * 256 := by
    rw [groupBand, bandHeader, UInt16.toNat_ofNat']
    omega
  have hbytes : (p.width + 255) / 256 * 256 / 8 = rowBytes p.width := by
    rw [rowBytes]
    omega
  have hgroup : (group p.bits k).length ≤ 128 := by
    rw [group, List.length_take]
    omega
  refine ⟨rfl, hwidth, ?_⟩
  rw [hwidth, hbytes, groupBand_number p hk offset]
  intro cap hcap
  obtain ⟨hvalid, hout, -⟩ := encodedPayload_spec
    (transposed (bandRows p.width (group p.bits k)) (rowBytes p.width))
    (codec11ChooseTable (transposed (bandRows p.width (group p.bits k)) (rowBytes p.width)))
  obtain ⟨hrc, hdec, -⟩ := codec11Decode_bytes _ cap hvalid
    (by rw [hout, length_transposed]; exact hcap)
  rw [← bandPayload_eq p.width] at hrc hdec
  simp only [groupBand]
  rw [hdec, hout]
  refine ⟨hrc, length_transposed _ _, fun rows hlen line hline x hx => ?_⟩
  rw [bandToRows_transposed (length_bandRows hgroup) hlen,
    get_bandRows (group p.bits k) (by rw [← hbytes]; omega), getD_group _ _ hline, getD_bits]

/-! ## Reading pages -/

/-- The callbacks for one page of a job: a page header with the job's values,
the bands with increasing numbers, one exactly for each group of 128 lines
with a black pixel inside the page width, and an end of page. -/
structure PageRead (job : QpdlJob) (p : Page) (evs : List Event) : Prop where
  reads : ∃ (start stop : Nat) (h : PageHeader) (bands : List ReadBand),
    evs = .page start h :: (bands.map ReadBand.event ++ [.endPage stop job.copies]) ∧
    h.xRes100.toNat * 100 = job.dpi ∧ h.yRes100.toNat * 100 = job.dpi ∧
    h.copies = job.copies ∧ h.paperCode = job.paperCode ∧
    h.paperWidth = qpdlPaperDots job.paperWidthPt job.dpi ∧
    h.paperHeight = qpdlPaperDots job.paperHeightPt job.dpi ∧ h.feeder = job.feeder ∧
    (bands.map fun b => b.header.number.toNat).Pairwise (· < ·) ∧
    (∀ b ∈ bands, BandRead p b) ∧
    ∀ n, (∃ b ∈ bands, b.header.number.toNat = n) ↔ ∃ y x, y / 128 = n ∧ p.pixel y x = true

/-- The callbacks for the bands of the groups `ks`. -/
theorem events_groupRecords (p : Page) (pos : Nat) (ks : List Nat) :
    ∃ offsets : List Nat, offsets.length = ks.length ∧
      Record.events pos (ks.map (groupRecord p.width p.width_le p.bits)) =
        (List.zipWith (groupBand p) ks offsets).map ReadBand.event := by
  induction ks generalizing pos with
  | nil => exact ⟨[], rfl, rfl⟩
  | cons k ks ih =>
    obtain ⟨offsets, hlen, hevents⟩ :=
      ih (pos + (groupRecord p.width p.width_le p.bits k).bytes.length)
    refine ⟨pos :: offsets, by simp [hlen], ?_⟩
    rw [List.map_cons, Record.events, hevents]
    rfl

/-- A band of the list is the band of one of the groups. -/
theorem mem_zipWith_groupBand {p : Page} {ks offsets : List Nat} {b : ReadBand}
    (h : b ∈ List.zipWith (groupBand p) ks offsets) : ∃ k ∈ ks, ∃ offset, b = groupBand p k offset := by
  obtain ⟨i, hi, rfl⟩ := List.mem_iff_getElem.mp h
  rw [List.getElem_zipWith]
  exact ⟨_, List.getElem_mem _, _, rfl⟩

theorem map_number_zipWith {p : Page} {ks offsets : List Nat} (hks : ∀ k ∈ ks, k ∈ blackGroups p.bits)
    (hlen : offsets.length = ks.length) :
    (List.zipWith (groupBand p) ks offsets).map (fun b => b.header.number.toNat) = ks := by
  induction ks generalizing offsets with
  | nil => simp
  | cons k ks ih =>
    obtain ⟨offset, offsets, rfl⟩ := List.exists_cons_of_length_eq_add_one hlen
    rw [List.zipWith_cons_cons, List.map_cons, groupBand_number p (hks k List.mem_cons_self),
      ih (fun k' hk' => hks k' (List.mem_cons_of_mem _ hk')) (by simpa using hlen)]

/-- The bands of a page's groups read as the page: increasing numbers, lines
of the page, and one band for each group with a black pixel. -/
theorem groupBands_read (p : Page) {offsets : List Nat}
    (hlen : offsets.length = (blackGroups p.bits).length) :
    let bands := List.zipWith (groupBand p) (blackGroups p.bits) offsets
    (bands.map fun b => b.header.number.toNat).Pairwise (· < ·) ∧ (∀ b ∈ bands, BandRead p b) ∧
      ∀ n, (∃ b ∈ bands, b.header.number.toNat = n) ↔ ∃ y x, y / 128 = n ∧ p.pixel y x = true := by
  have hnumbers := map_number_zipWith (p := p) (fun k hk => hk) hlen
  refine ⟨?_, ?_, ?_⟩
  · rw [hnumbers]
    exact List.pairwise_lt_range.filter _
  · intro b hb
    obtain ⟨k, hk, offset, rfl⟩ := mem_zipWith_groupBand hb
    exact bandRead_group p hk offset
  · intro n
    rw [← List.mem_map (f := fun b : ReadBand => b.header.number.toNat), hnumbers, mem_blackGroups]
    simp only [getD_bits]

/-- The records of a page read as the page. -/
theorem pageRead_pageRecords {job : QpdlJob} (hjob : job.Accepted) (p : Page) (pos : Nat) :
    PageRead job p (Record.events pos (pageRecords job p)) := by
  obtain ⟨offsets, hlen, hevents⟩ := events_groupRecords p (pos + 17) (blackGroups p.bits)
  obtain ⟨hincreasing, hread, hall⟩ := groupBands_read p hlen
  have hres : (UInt8.ofNat (job.dpi / 100)).toNat * 100 = job.dpi := by
    rcases hjob.dpi with hd | hd <;> rw [hd] <;> decide
  have hshape : Record.events pos (pageRecords job p) = .page pos job.pageHeader ::
      ((List.zipWith (groupBand p) (blackGroups p.bits) offsets).map ReadBand.event ++
        [.endPage (pos + 17 + (((blackGroups p.bits).map
          (groupRecord p.width p.width_le p.bits)).flatMap Record.bytes).length) job.copies]) := by
    rw [pageRecords, Record.events, Record.events_append]
    simp only [Record.bytes, length_writePageHeader, hevents]
    rfl
  exact ⟨⟨_, _, _, _, hshape, hres, hres, rfl, rfl, rfl, rfl, rfl, hincreasing, hread, hall⟩⟩

/-! ## The round trip of a job -/

/-- The records of a list of pages. -/
def pagesRecords (job : QpdlJob) (pages : List Page) : List Record :=
  pages.flatMap (pageRecords job)

theorem flatMap_pagesRecords (job : QpdlJob) (pages : List Page) :
    (pagesRecords job pages).flatMap Record.bytes =
      pages.flatMap fun p => pageBytes job p.width p.bits := by
  rw [pagesRecords, List.flatMap_assoc]
  exact List.flatMap_congr fun p _ => flatMap_pageRecords job p

/-- The callbacks for a list of pages are those of one page after the other. -/
theorem pageRead_pagesRecords {job : QpdlJob} (hjob : job.Accepted) (pos : Nat)
    (pages : List Page) :
    ∃ evss : List (List Event), Record.events pos (pagesRecords job pages) = evss.flatten ∧
      List.Forall₂ (PageRead job) pages evss := by
  induction pages generalizing pos with
  | nil => exact ⟨[], rfl, .nil⟩
  | cons p pages ih =>
    obtain ⟨evss, hevents, hreads⟩ := ih (pos + ((pageRecords job p).flatMap Record.bytes).length)
    refine ⟨Record.events pos (pageRecords job p) :: evss, ?_,
      .cons (pageRead_pageRecords hjob p pos) hreads⟩
    rw [pagesRecords, List.flatMap_cons, Record.events_append, List.flatten_cons, ← hevents]
    rfl

/-- The stream of a job with unmarked texts reads as the lines of its
envelope, its pages and its end. -/
theorem walk_jobBytes {job : QpdlJob} (hjob : job.Accepted) (hu : job.Unmarked)
    (pages : List Page) :
    (walk (jobBytes job pages)).rc = OK ∧ ∃ (evss : List (List Event)) (stop : Nat),
      (walk (jobBytes job pages)).events = lineEvents 0 (reportedLines job) ++ evss.flatten ++
        [.endJob stop, .pjlLine (stop + 1) uel] ∧
      List.Forall₂ (PageRead job) pages evss := by
  obtain ⟨evss, hevents, hreads⟩ := pageRead_pagesRecords hjob (envelope job).length pages
  rw [jobBytes, ← flatMap_pagesRecords, walk_job hjob hu, hevents]
  exact ⟨rfl, evss, _, rfl, hreads⟩

/-- Every call of an accepted job with unmarked texts returns 0, and walking
its stream returns 0 and reports the lines of the envelope, the pages as they
were given, and the end of the job. -/
theorem walk_encodeJob (e : Encoder) (job : QpdlJob) (sink : Sink) (pages : List Page)
    (hjob : (qpdlBeginJob e job sink).1 = OK) (hsink : ∀ n, sink.answer n = 0)
    (hempty : sink.accepted = []) (htype : ∀ t, job.paperType = some t → ¬enterLanguage <:+: t)
    (hproducer : ∀ s, job.producer = some s → ¬enterLanguage <:+: s) :
    (encodeJob e job sink pages).1 = OK ∧
      let r := walk (encodeJob e job sink pages).2.sink.accepted
      r.rc = OK ∧ ∃ (evss : List (List Event)) (stop : Nat),
        r.events = lineEvents 0 (reportedLines job) ++ evss.flatten ++
          [.endJob stop, .pjlLine (stop + 1) uel] ∧
        List.Forall₂ (PageRead job) pages evss := by
  have hrefused := refused_of_beginJob hjob
  obtain ⟨e', hrun, hout⟩ := encodeJob_run e job sink pages hrefused hsink
  rw [hempty, List.nil_append] at hout
  have hwalk := walk_jobBytes (QpdlJob.accepted hrefused) ⟨htype, hproducer⟩ pages
  rw [← hout] at hwalk
  rw [hrun]
  exact ⟨rfl, hwalk⟩

/-- The default job with a page of one row. -/
theorem walk_encodeJob_small :
    (encodeJob { job := qpdlJobDefault, sink := .accepting } qpdlJobDefault .accepting
        [smallPage]).1 = OK ∧
      let r := walk (encodeJob { job := qpdlJobDefault, sink := .accepting } qpdlJobDefault
        .accepting [smallPage]).2.sink.accepted
      r.rc = OK ∧ ∃ (evss : List (List Event)) (stop : Nat),
        r.events = lineEvents 0 (reportedLines qpdlJobDefault) ++ evss.flatten ++
          [.endJob stop, .pjlLine (stop + 1) uel] ∧
        List.Forall₂ (PageRead qpdlJobDefault) [smallPage] evss :=
  walk_encodeJob _ qpdlJobDefault .accepting [smallPage]
    (by
      obtain ⟨e', hbegin, -⟩ := beginJob_idle { job := qpdlJobDefault, sink := .accepting }
        qpdlJobDefault .accepting (by decide) fun _ => rfl
      rw [hbegin])
    (fun _ => rfl) rfl (by decide) (by decide)

end Airbridge.Qpdl
