import Airbridge.Qpdl.Bitmap

/-!
# One stream for one picture

Two jobs with the same settings are the same bytes exactly when they have the
same pictures, page by page (`encodeJob_same_iff`): the encoder tells two
pictures apart, and it does not tell the rows and the packing of one picture
apart.
-/

namespace Airbridge.Qpdl

/-! ## Records are what the stream says -/

theorem Record.event_injective (pos : Nat) {r r' : Record} (h : r.event pos = r'.event pos) :
    r = r' := by
  cases r <;> cases r' <;> simp_all [Record.event]

/-- A list of records can be read off its callbacks. -/
theorem Record.events_injective (pos : Nat) {rs rs' : List Record}
    (h : Record.events pos rs = Record.events pos rs') : rs = rs' := by
  induction rs generalizing pos rs' with
  | nil =>
    cases rs' with
    | nil => rfl
    | cons r' rs' => exact absurd h (by simp [Record.events])
  | cons r rs ih =>
    cases rs' with
    | nil => exact absurd h (by simp [Record.events])
    | cons r' rs' =>
      rw [Record.events, Record.events, List.cons.injEq] at h
      obtain rfl := Record.event_injective pos h.1
      rw [ih _ h.2]

/-- No two lists of records are the same bytes. -/
theorem records_injective {rs rs' : List Record}
    (h : rs.flatMap Record.bytes = rs'.flatMap Record.bytes) : rs = rs' := by
  have hevents (rs : List Record) :
      (walkRecords 0 (rs.flatMap Record.bytes)).events = Record.events 0 rs := by
    have hwalk := walkRecords_records 0 rs []
    rw [List.append_nil, walkRecords] at hwalk
    rw [hwalk]
    exact List.append_nil _
  exact Record.events_injective 0 (by rw [← hevents, ← hevents, h])

/-! ## Pictures -/

/-- The same black pixels.  The width shows in the columns of 256 pixels a band
has, so only on a page with a band. -/
def SamePicture (p q : Page) : Prop :=
  (∀ y x, p.pixel y x = q.pixel y x) ∧
    ((∃ y x, p.pixel y x = true) → rowBytes p.width = rowBytes q.width)

theorem mem_blackGroups_bits {p : Page} {k : Nat} :
    k ∈ blackGroups p.bits ↔ ∃ y x, y / 128 = k ∧ p.pixel y x = true := by
  rw [mem_blackGroups]
  simp only [getD_bits]

theorem SamePicture.blackGroups_eq {p q : Page} (h : SamePicture p q) :
    blackGroups p.bits = blackGroups q.bits := by
  have hsorted (rows : List (List Bool)) : (blackGroups rows).Pairwise (· < ·) :=
    List.pairwise_lt_range.filter _
  refine List.Pairwise.eq_of_mem_iff (hsorted _) (hsorted _) fun k => ?_
  rw [mem_blackGroups_bits, mem_blackGroups_bits]
  simp only [h.1]

/-- Row buffers are the same when their lines are. -/
theorem eq_of_lines {a b : Bytes} {m n : Nat} (ha : a.length = m * n) (hb : b.length = m * n)
    (h : ∀ line < n, Buffer.load a (line * m) m = Buffer.load b (line * m) m) : a = b := by
  apply List.ext_getElem?
  intro i
  by_cases hi : i < m * n
  · have hm : 0 < m := Nat.pos_of_mul_pos_right (Nat.zero_lt_of_lt hi)
    have hline : i / m < n := Nat.div_lt_of_lt_mul hi
    have hcell := congrArg (fun l : Bytes => l[i % m]?) (h (i / m) hline)
    simp only [Buffer.getElem?_load, if_pos (Nat.mod_lt i hm)] at hcell
    rwa [Nat.div_add_mod'] at hcell
  · rw [List.getElem?_eq_none (by omega), List.getElem?_eq_none (by omega)]

/-- Groups of the same pixels fill the same row buffer. -/
theorem SamePicture.bandRows_eq {p q : Page} (h : SamePicture p q) {k : Nat}
    (hw : rowBytes p.width = rowBytes q.width) :
    bandRows p.width (group p.bits k) = bandRows q.width (group q.bits k) := by
  have hgroup (rows : List (List Bool)) : (group rows k).length ≤ 128 := by
    rw [group, List.length_take]
    omega
  have hlen : (bandRows q.width (group q.bits k)).length = rowBytes q.width * 128 :=
    length_bandRows (hgroup q.bits)
  refine eq_of_lines ?_ hlen fun line hline => ?_
  · rw [length_bandRows (hgroup p.bits), hw]
  · have hload (rows : Bytes) (hrows : rows.length = rowBytes q.width * 128) :
        (Buffer.load rows (line * rowBytes q.width) (rowBytes q.width)).length =
          rowBytes q.width := by
      refine Buffer.length_load_of_le ?_
      have := Nat.mul_le_mul_left (rowBytes q.width) (Nat.succ_le_of_lt hline)
      rw [hrows, Nat.mul_comm line, ← Nat.mul_succ]
      exact this
    have hlen' : (bandRows p.width (group p.bits k)).length = rowBytes q.width * 128 := by
      rw [length_bandRows (hgroup p.bits), hw]
    refine Bits.row_ext (by rw [hload _ hlen', hload _ hlen]) fun x hx => ?_
    rw [hload _ hlen'] at hx
    have hp : Bits.get (Buffer.load (bandRows p.width (group p.bits k))
        (line * rowBytes p.width) (rowBytes p.width)) x =
          ((group p.bits k).getD line []).getD x false :=
      get_bandRows _ (by rw [hw]; exact hx)
    rw [hw] at hp
    rw [hp, get_bandRows _ hx, getD_group _ _ hline, getD_group _ _ hline, getD_bits, getD_bits,
      h.1]

theorem bandHeader_congr {w w' : Nat} (h : rowBytes w = rowBytes w') (number : Nat)
    (payload : Bytes) : bandHeader w number payload = bandHeader w' number payload := by
  have hcolumns : (w + 255) / 256 = (w' + 255) / 256 := by
    unfold rowBytes at h
    omega
  unfold bandHeader
  rw [hcolumns]

theorem bandPayload_congr {w w' : Nat} (h : rowBytes w = rowBytes w') (rows : Bytes) :
    bandPayload w rows = bandPayload w' rows := by
  rw [bandPayload_eq, bandPayload_eq, h]

/-- The callback for the record of a group. -/
theorem event_groupRecord (width : Nat) (hw : width ≤ 65280) (rows : List (List Bool)) (k : Nat) :
    (groupRecord width hw rows k).event 0 =
      .band 0 (bandHeader width k (bandPayload width (bandRows width (group rows k))))
        (bandPayload width (bandRows width (group rows k))) :=
  rfl

theorem SamePicture.groupRecord_eq {p q : Page} (h : SamePicture p q) {k : Nat}
    (hk : k ∈ blackGroups p.bits) :
    groupRecord p.width p.width_le p.bits k = groupRecord q.width q.width_le q.bits k := by
  obtain ⟨y, x, -, hblack⟩ := mem_blackGroups_bits.mp hk
  have hw := h.2 ⟨y, x, hblack⟩
  refine Record.event_injective 0 ?_
  rw [event_groupRecord, event_groupRecord, h.bandRows_eq hw, bandPayload_congr hw,
    bandHeader_congr hw]

/-- The same picture is the same records. -/
theorem SamePicture.pageRecords_eq {p q : Page} (h : SamePicture p q) (job : QpdlJob) :
    pageRecords job p = pageRecords job q := by
  have hbands : (blackGroups p.bits).map (groupRecord p.width p.width_le p.bits) =
      (blackGroups q.bits).map (groupRecord q.width q.width_le q.bits) := by
    rw [← h.blackGroups_eq]
    exact List.map_congr_left fun k hk => h.groupRecord_eq hk
  unfold pageRecords
  rw [hbands]

/-- The records of a page give its picture away. -/
theorem samePicture_of_pageRecords {p q : Page} (job : QpdlJob)
    (h : pageRecords job p = pageRecords job q) : SamePicture p q := by
  constructor
  · intro y x
    rw [← bitmapOf_pageBytes job p, ← bitmapOf_pageBytes job q, ← flatMap_pageRecords,
      ← flatMap_pageRecords, h]
  · intro ⟨y, x, hblack⟩
    unfold pageRecords at h
    have hbands := List.append_cancel_right (List.cons.inj h).2
    have hmem : groupRecord p.width p.width_le p.bits (y / 128) ∈
        (blackGroups q.bits).map (groupRecord q.width q.width_le q.bits) := by
      rw [← hbands]
      exact List.mem_map_of_mem (mem_blackGroups_bits.mpr ⟨y, x, rfl, hblack⟩)
    obtain ⟨k, -, hk⟩ := List.mem_map.mp hmem
    have hheader := (Record.band.inj hk).1
    have hwidth : UInt16.ofNat ((q.width + 255) / 256 * 256) =
        UInt16.ofNat ((p.width + 255) / 256 * 256) := congrArg BandHeader.width hheader
    have hle := p.width_le
    have hle' := q.width_le
    have hnat := congrArg UInt16.toNat hwidth
    rw [UInt16.toNat_ofNat', UInt16.toNat_ofNat'] at hnat
    unfold rowBytes
    omega

/-! ## Pages one after the other -/

/-- The records of a page in front of its last one. -/
def pageFront (job : QpdlJob) (p : Page) : List Record :=
  .page job.pageHeader :: (blackGroups p.bits).map (groupRecord p.width p.width_le p.bits)

def Record.EndsPage : Record → Prop
  | .endPage _ => True
  | _ => False

theorem pageFront_open (job : QpdlJob) (p : Page) : ∀ r ∈ pageFront job p, ¬r.EndsPage := by
  intro r hr
  rcases List.mem_cons.mp hr with rfl | hr
  · exact not_false
  · obtain ⟨k, -, rfl⟩ := List.mem_map.mp hr
    exact not_false

theorem pagesRecords_cons (job : QpdlJob) (p : Page) (pages : List Page) :
    pagesRecords job (p :: pages) =
      pageFront job p ++ .endPage job.copies :: pagesRecords job pages := by
  unfold pagesRecords pageRecords pageFront
  rw [List.flatMap_cons, List.cons_append, List.append_assoc]
  rfl

/-- Lists that go on behind their first end of a page. -/
theorem append_endPage_inj {front front' rest rest' : List Record} {copies : UInt16}
    (hfront : ∀ r ∈ front, ¬r.EndsPage) (hfront' : ∀ r ∈ front', ¬r.EndsPage)
    (h : front ++ .endPage copies :: rest = front' ++ .endPage copies :: rest') :
    front = front' ∧ rest = rest' := by
  induction front generalizing front' with
  | nil =>
    cases front' with
    | nil => exact ⟨rfl, (List.cons.inj h).2⟩
    | cons r' front' =>
      have hr' := hfront' r' List.mem_cons_self
      rw [← (List.cons.inj h).1] at hr'
      exact absurd trivial hr'
  | cons r front ih =>
    cases front' with
    | nil =>
      have hr := hfront r List.mem_cons_self
      rw [(List.cons.inj h).1] at hr
      exact absurd trivial hr
    | cons r' front' =>
      obtain ⟨hhead, htail⟩ := List.cons.inj h
      obtain ⟨hsame, hrest⟩ := ih (fun r hr => hfront r (List.mem_cons_of_mem _ hr))
        (fun r hr => hfront' r (List.mem_cons_of_mem _ hr)) htail
      exact ⟨by rw [hhead, hsame], hrest⟩

theorem pagesRecords_same_iff (job : QpdlJob) (pages pages' : List Page) :
    pagesRecords job pages = pagesRecords job pages' ↔ List.Forall₂ SamePicture pages pages' := by
  constructor
  · intro h
    induction pages generalizing pages' with
    | nil =>
      cases pages' with
      | nil => exact .nil
      | cons q pages' =>
        rw [pagesRecords_cons] at h
        exact absurd h (by simp [pagesRecords])
    | cons p pages ih =>
      cases pages' with
      | nil =>
        rw [pagesRecords_cons] at h
        exact absurd h (by simp [pagesRecords])
      | cons q pages' =>
        rw [pagesRecords_cons, pagesRecords_cons] at h
        obtain ⟨hpage, hrest⟩ :=
          append_endPage_inj (pageFront_open job p) (pageFront_open job q) h
        refine .cons (samePicture_of_pageRecords job ?_) (ih pages' hrest)
        exact congrArg (· ++ [Record.endPage job.copies]) hpage
  · intro h
    induction h with
    | nil => rfl
    | cons hpage _ ih =>
      unfold pagesRecords at ih ⊢
      rw [List.flatMap_cons, List.flatMap_cons, hpage.pageRecords_eq, ih]

theorem jobBytes_same_iff (job : QpdlJob) (pages pages' : List Page) :
    jobBytes job pages = jobBytes job pages' ↔ List.Forall₂ SamePicture pages pages' := by
  rw [← pagesRecords_same_iff job]
  unfold jobBytes
  rw [← flatMap_pagesRecords, ← flatMap_pagesRecords]
  constructor
  · intro h
    exact records_injective (List.append_cancel_left (List.append_cancel_right h))
  · intro h
    rw [h]

/-- The stream of a job is a canonical form of its pictures.  With the same
settings, two lists of pages are encoded to the same bytes exactly when they
have the same black pixels, page by page, and on a page that is not white the
same number of 256-pixel columns.  How the rows are packed, what stands right
of the page width in them, and white rows at the end of a page make no
difference. -/
theorem encodeJob_same_iff (e e' : Encoder) (job : QpdlJob) (sink : Sink) (pages pages' : List Page)
    (hjob : job.refused = false) (hsink : ∀ n, sink.answer n = 0) :
    (encodeJob e job sink pages).2.sink.accepted =
        (encodeJob e' job sink pages').2.sink.accepted ↔
      List.Forall₂ SamePicture pages pages' := by
  obtain ⟨e1, hrun, hout⟩ := encodeJob_run e job sink pages hjob hsink
  obtain ⟨e2, hrun', hout'⟩ := encodeJob_run e' job sink pages' hjob hsink
  rw [hrun, hrun', ← jobBytes_same_iff job]
  dsimp only
  rw [hout, hout']
  exact List.append_right_inj sink.accepted

/-- A page, and the same page with a white row below. -/
theorem encodeJob_same_iff_small :
    (encodeJob { job := qpdlJobDefault, sink := .accepting } qpdlJobDefault .accepting
        [smallPage]).2.sink.accepted =
      (encodeJob { job := qpdlJobDefault, sink := .accepting } qpdlJobDefault .accepting
        [{ smallPage with
            rows := smallPage.rows ++ [[0x00]]
            rows_le := by decide
            row_bytes := by decide }]).2.sink.accepted ↔
      List.Forall₂ SamePicture [smallPage] [{ smallPage with
        rows := smallPage.rows ++ [[0x00]]
        rows_le := by decide
        row_bytes := by decide }] :=
  encodeJob_same_iff _ _ qpdlJobDefault .accepting _ _ (by decide) fun _ => rfl

end Airbridge.Qpdl
