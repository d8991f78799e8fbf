import Airbridge.Qpdl.Walk

/-!
# The grammar of a job

The byte strings `m2022_qpdl_walk` accepts, stated without the walker: records
one after the other, and at most one end of the job.  Behind an envelope the
walker returns 0 on exactly these (`walk_grammar`), and what it reports can be
written out again.
-/

namespace Airbridge.Qpdl

/-! ## Records and trailers -/

/-- The bytes of one record. -/
inductive IsRecord : Bytes → Prop where
  | page (body : Bytes) (h : body.length = 16) : IsRecord (REC_PAGE :: body)
  | band (header payload : Bytes) (h : header.length = 10)
      (hpayload : payload.length = (rd32be header 6).toNat) :
      IsRecord (REC_BAND :: (header ++ payload))
  | endPage (body : Bytes) (h : body.length = 2) : IsRecord (REC_END_PAGE :: body)

/-- What may follow the end-of-job byte: nothing, or the UEL and text. -/
def IsTrailer (trailer : Bytes) : Prop :=
  trailer = [] ∨ uel <+: trailer ∧ ∀ c ∈ trailer, isTextByte c = true

/-- What may follow the records. -/
def IsEnd (rest : Bytes) : Prop :=
  rest = [] ∨ ∃ trailer, rest = REC_END_JOB :: trailer ∧ IsTrailer trailer

/-- The bytes of a job behind its envelope. -/
def IsJob (s : Bytes) : Prop :=
  ∃ (rs : List Bytes) (rest : Bytes), (∀ r ∈ rs, IsRecord r) ∧ s = rs.flatten ++ rest ∧ IsEnd rest

/-- No line of the text is longer than 4096 bytes. -/
def ShortLines (text : Bytes) : Prop :=
  ∀ line, line <:+: text → (0x0A : UInt8) ∉ line → line.length ≤ 4096

/-- The text behind an end-of-job byte has no line longer than 4096 bytes. -/
def ShortTrailer (s : Bytes) : Prop :=
  ∀ (rs : List Bytes) (trailer : Bytes), (∀ r ∈ rs, IsRecord r) →
    s = rs.flatten ++ REC_END_JOB :: trailer → ShortLines trailer

/-- What is written for a callback: a record is written by its writer, and a
text line belongs to no record. -/
def Event.bytes : Event → Bytes
  | .pjlLine _ _ => []
  | .page _ h => writePageHeader h
  | .band _ h payload => writeBandHeader h ++ payload
  | .endPage _ copies => writeEndPage copies
  | .endJob _ => [REC_END_JOB]

/-- The callback reports text. -/
def Event.isLine : Event → Bool
  | .pjlLine _ _ => true
  | _ => false

/-! ## Writers undo parsers -/

/-- The first bytes of a list, by their indices. -/
theorem take_eq_map_byteAt {p : Bytes} {n : Nat} (h : n ≤ p.length) :
    p.take n = (List.range n).map (byteAt p) := by
  apply List.ext_getElem
  · rw [List.length_take, List.length_map, List.length_range]
    omega
  · intro i hi _
    rw [List.length_take] at hi
    rw [List.getElem_take, List.getElem_map, List.getElem_range, byteAt_eq_getElem (by omega)]

theorem writePageHeader_parse {p : Bytes} {h : PageHeader} {n : Nat}
    (hp : parsePageHeader p = .ok (h, n)) : writePageHeader h = p.take 17 := by
  obtain ⟨-, hlen⟩ := parsePageHeader_consumed hp
  unfold parsePageHeader at hp
  split_ifs at hp with h1 h2
  obtain ⟨rfl, -⟩ := Prod.mk.inj (Except.ok.inj hp)
  rw [not_not] at h2
  rw [take_eq_map_byteAt hlen]
  simp only [writePageHeader, rd16be, Word.be16_ofBe16, ← h2]
  rfl

theorem writeBandHeader_parse {p : Bytes} {h : BandHeader} {n : Nat}
    (hp : parseBandHeader p = .ok (h, n)) : writeBandHeader h = p.take 11 := by
  obtain ⟨-, hlen⟩ := parseBandHeader_consumed hp
  unfold parseBandHeader at hp
  split_ifs at hp with h1 h2
  obtain ⟨rfl, -⟩ := Prod.mk.inj (Except.ok.inj hp)
  rw [not_not] at h2
  rw [take_eq_map_byteAt hlen]
  simp only [writeBandHeader, rd16be, rd32be, Word.be16_ofBe16, Word.be32_ofBe32, ← h2]
  rfl

theorem writeEndPage_read {p : Bytes} (hlen : 3 ≤ p.length) (ht : byteAt p 0 = REC_END_PAGE) :
    writeEndPage (rd16be p 1) = p.take 3 := by
  rw [take_eq_map_byteAt hlen]
  simp only [writeEndPage, rd16be, Word.be16_ofBe16, ← ht]
  rfl

/-- What was parsed as a page header begins with the bytes of its record. -/
theorem eq_page_append {p : Bytes} {h : PageHeader} {n : Nat} (hp : parsePageHeader p = .ok (h, n)) :
    p = (Record.page h).bytes ++ p.drop 17 := by
  rw [Record.bytes, writePageHeader_parse hp, List.take_append_drop]

/-- And so does a band header with its payload behind it. -/
theorem eq_band_append {p : Bytes} {h : BandHeader} {n : Nat} (hp : parseBandHeader p = .ok (h, n))
    (hlen : h.length.toNat ≤ (p.drop 11).length) :
    p = (Record.band h ((p.drop 11).take h.length.toNat) (List.length_take_of_le hlen)).bytes ++
      (p.drop 11).drop h.length.toNat := by
  rw [Record.bytes, writeBandHeader_parse hp, List.append_assoc, List.take_append_drop,
    List.take_append_drop]

theorem eq_endPage_append {p : Bytes} (hlen : 3 ≤ p.length) (ht : byteAt p 0 = REC_END_PAGE) :
    p = (Record.endPage (rd16be p 1)).bytes ++ p.drop 3 := by
  rw [Record.bytes, writeEndPage_read hlen ht, List.take_append_drop]

/-! ## Records of the grammar and records of the model -/

theorem isRecord_writePageHeader (h : PageHeader) : IsRecord (writePageHeader h) :=
  .page _ (by simp [Word.be16])

theorem rd32be_writeBandHeader (h : BandHeader) (payload : Bytes) :
    rd32be ((writeBandHeader h ++ payload).drop 1) 6 = h.length := by
  simp [writeBandHeader, Word.be16, Word.be32, rd32be, byteAt, Word.ofBe32_be32]

theorem isRecord_bytes (r : Record) : IsRecord r.bytes := by
  cases r with
  | page h => exact isRecord_writePageHeader h
  | band h payload hlen =>
    refine .band ((writeBandHeader h).drop 1) payload (by simp) ?_
    rw [hlen, ← rd32be_writeBandHeader h []]
    rw [List.append_nil]
  | endPage copies => exact .endPage (Word.be16 copies) rfl

/-- Every record of the grammar is one a writer writes. -/
theorem exists_record {b : Bytes} (h : IsRecord b) : ∃ r : Record, r.bytes = b := by
  cases h with
  | page body hlen =>
    have hp : ∃ header, parsePageHeader (REC_PAGE :: body) = .ok (header, 17) := by
      unfold parsePageHeader
      rw [if_neg (by rw [List.length_cons]; omega),
        if_neg (show ¬byteAt (REC_PAGE :: body) 0 ≠ REC_PAGE from not_not.mpr rfl)]
      exact ⟨_, rfl⟩
    obtain ⟨header, hp⟩ := hp
    refine ⟨.page header, ?_⟩
    show writePageHeader header = _
    rw [writePageHeader_parse hp, List.take_of_length_le (by rw [List.length_cons]; omega)]
  | band header payload hlen hpayload =>
    have hp : ∃ h : BandHeader, h.length = rd32be header 6 ∧
        parseBandHeader (REC_BAND :: header) = .ok (h, 11) := by
      unfold parseBandHeader
      rw [if_neg (by rw [List.length_cons]; omega),
        if_neg (show ¬byteAt (REC_BAND :: header) 0 ≠ REC_BAND from not_not.mpr rfl)]
      exact ⟨_, rfl, rfl⟩
    obtain ⟨h, hlength, hp⟩ := hp
    refine ⟨.band h payload (by rw [hlength]; exact hpayload), ?_⟩
    show writeBandHeader h ++ payload = _
    rw [writeBandHeader_parse hp, List.take_of_length_le (by rw [List.length_cons]; omega)]
    rfl
  | endPage body hlen =>
    refine ⟨.endPage (rd16be (REC_END_PAGE :: body) 1), ?_⟩
    show writeEndPage _ = _
    rw [writeEndPage_read (by rw [List.length_cons]; omega) rfl,
      List.take_of_length_le (by rw [List.length_cons]; omega)]

theorem exists_records {bs : List Bytes} (h : ∀ b ∈ bs, IsRecord b) :
    ∃ rs : List Record, rs.flatMap Record.bytes = bs.flatten := by
  induction bs with
  | nil => exact ⟨[], rfl⟩
  | cons b bs ih =>
    obtain ⟨r, hr⟩ := exists_record (h b List.mem_cons_self)
    obtain ⟨rs, hrs⟩ := ih fun b' hb' => h b' (List.mem_cons_of_mem b hb')
    exact ⟨r :: rs, by rw [List.flatMap_cons, List.flatten_cons, hr, hrs]⟩

/-! ## Text behind the end of the job -/

theorem lineLength_none {room : Nat} {text : Bytes} (h : lineLength room text = none) :
    ∃ c ∈ text, isTextByte c = false := by
  induction room generalizing text with
  | zero => exact absurd h (by simp [lineLength])
  | succ room ih =>
    cases text with
    | nil => exact absurd h (by simp [lineLength])
    | cons c rest =>
      unfold lineLength at h
      split_ifs at h with hnl htext
      · exact ⟨c, List.mem_cons_self, by simpa using htext⟩
      · obtain ⟨d, hd, hno⟩ := ih (Option.map_eq_none_iff.mp h)
        exact ⟨d, List.mem_cons_of_mem c hd, hno⟩

/-- The line found is text without a newline, and ends at a newline, at the
end of the data or at the limit. -/
theorem lineLength_some {room : Nat} {text : Bytes} {n : Nat} (h : lineLength room text = some n) :
    n ≤ text.length ∧ (∀ c ∈ text.take n, isTextByte c = true) ∧ (0x0A : UInt8) ∉ text.take n ∧
      (n = room ∨ n = text.length ∨ ∃ behind, text.drop n = 0x0A :: behind) := by
  induction room generalizing text n with
  | zero =>
    obtain rfl : 0 = n := Option.some.inj h
    exact ⟨Nat.zero_le _, by simp, by simp, .inl rfl⟩
  | succ room ih =>
    cases text with
    | nil =>
      obtain rfl : 0 = n := Option.some.inj h
      exact ⟨le_refl _, by simp, by simp, .inr (.inl rfl)⟩
    | cons c rest =>
      unfold lineLength at h
      split_ifs at h with hnl htext
      · obtain rfl : 0 = n := Option.some.inj h
        exact ⟨Nat.zero_le _, by simp, by simp, .inr (.inr ⟨rest, by rw [hnl]; rfl⟩)⟩
      · obtain ⟨k, hk, rfl⟩ := Option.map_eq_some_iff.mp h
        obtain ⟨hle, hall, hno, hend⟩ := ih hk
        refine ⟨Nat.succ_le_succ hle, ?_, ?_, ?_⟩
        · intro d hd
          rw [List.take_succ_cons] at hd
          rcases List.mem_cons.mp hd with rfl | hd
          · simpa using htext
          · exact hall d hd
        · rw [List.take_succ_cons, List.mem_cons, not_or]
          exact ⟨fun he => hnl he.symm, hno⟩
        · rw [List.drop_succ_cons, List.length_cons]
          rcases hend with rfl | rfl | hnewline
          · exact .inl rfl
          · exact .inr (.inl rfl)
          · exact .inr (.inr hnewline)

/-- Without a line above the limit, the byte behind a line is its newline. -/
theorem lineLength_newline {text : Bytes} {n : Nat} (h : ShortLines text)
    (hline : lineLength 4096 text = some n) :
    text.drop n = [] ∨ ∃ behind, text.drop n = 0x0A :: behind := by
  obtain ⟨hle, -, hno, hend⟩ := lineLength_some hline
  rcases hend with rfl | rfl | hnewline
  · cases hdrop : text.drop 4096 with
    | nil => exact .inl rfl
    | cons c behind =>
      by_cases hc : c = 0x0A
      · exact .inr ⟨behind, by rw [hc]⟩
      · exfalso
        have hsplit : text = text.take 4096 ++ [c] ++ behind := by
          rw [List.append_assoc, List.singleton_append, ← hdrop, List.take_append_drop]
        have hlong := h (text.take 4096 ++ [c]) ⟨[], behind, hsplit.symm⟩ (by
          rw [List.mem_append, not_or]
          exact ⟨hno, fun he => hc (List.mem_singleton.mp he).symm⟩)
        rw [List.length_append, List.length_take, List.length_singleton] at hlong
        omega
  · exact .inl List.drop_length
  · exact .inr hnewline

/-- Without a line above the limit, the text is read to the first binary byte:
to its end when there is none. -/
theorem emitLines_all_iff (pos : Nat) (text : Bytes) (h : ShortLines text) :
    (emitLines false pos text).rest = [] ↔ ∀ c ∈ text, isTextByte c = true := by
  fun_induction emitLines false pos text with
  | case1 pos => exact ⟨fun _ c hc => absurd hc List.not_mem_nil, fun _ => rfl⟩
  | case2 pos c tail hc =>
    refine ⟨fun hnil => absurd hnil (List.cons_ne_nil c tail), fun hall => ?_⟩
    rw [hall c List.mem_cons_self] at hc
    exact absurd hc (by decide)
  | case3 pos c tail hc hline =>
    obtain ⟨d, hd, hno⟩ := lineLength_none hline
    refine ⟨fun hnil => absurd hnil (List.cons_ne_nil c tail), fun hall => ?_⟩
    rw [hall d hd] at hno
    exact absurd hno (by decide)
  | case4 pos c tail hc n hline line pos' rest' henter => exact absurd henter Bool.false_ne_true
  | case5 pos c tail hc n hline line pos' rest' henter more ih =>
    have hshort : ShortLines rest' := fun line hin =>
      h line (hin.trans (List.drop_suffix _ _).isInfix)
    have hrest : rest' = ((c :: tail).drop n).drop 1 := by rw [List.drop_drop]
    obtain ⟨-, htext, -, -⟩ := lineLength_some hline
    refine (ih hshort).trans ⟨?_, ?_⟩
    · intro hall d hd
      rw [← List.take_append_drop n (c :: tail)] at hd
      rcases List.mem_append.mp hd with hd | hd
      · exact htext d hd
      · rcases lineLength_newline h hline with hnil | ⟨behind, hnewline⟩
        · rw [hnil] at hd
          exact absurd hd List.not_mem_nil
        · rw [hnewline] at hd hrest
          rcases List.mem_cons.mp hd with rfl | hd
          · decide
          · exact hall d (by rw [hrest]; exact hd)
    · intro hall d hd
      exact hall d (List.mem_of_mem_drop hd)

/-- Text lines are all `emit_lines` reports. -/
theorem emitLines_isLine (wantEnter : Bool) (pos : Nat) (text : Bytes) :
    ∀ e ∈ (emitLines wantEnter pos text).events, e.isLine = true := by
  fun_induction emitLines wantEnter pos text with
  | case1 | case2 | case3 => exact fun e he => absurd he List.not_mem_nil
  | case4 pos c tail hc n hline line pos' rest' henter =>
    intro e he
    rw [List.mem_singleton.mp he]
    rfl
  | case5 pos c tail hc n hline line pos' rest' henter more ih =>
    intro e he
    rcases List.mem_cons.mp he with rfl | he
    · rfl
    · exact ih e he

/-- The cursor of `emit_lines` and the data behind it. -/
theorem emitLines_pos (wantEnter : Bool) (pos : Nat) (text : Bytes) :
    (emitLines wantEnter pos text).rest <:+ text ∧
      (emitLines wantEnter pos text).pos + (emitLines wantEnter pos text).rest.length =
        pos + text.length := by
  fun_induction emitLines wantEnter pos text with
  | case1 | case2 | case3 => exact ⟨List.suffix_refl _, rfl⟩
  | case4 pos c tail hc n hline line pos' rest' henter =>
    have hpos : pos' = pos + min (n + 1) (c :: tail).length := rfl
    have hrest : rest'.length = (c :: tail).length - (n + 1) := List.length_drop
    refine ⟨List.drop_suffix _ _, ?_⟩
    dsimp only
    omega
  | case5 pos c tail hc n hline line pos' rest' henter more ih =>
    have hpos : pos' = pos + min (n + 1) (c :: tail).length := rfl
    have hrest : rest'.length = (c :: tail).length - (n + 1) := List.length_drop
    obtain ⟨hsuffix, hlen⟩ := ih
    refine ⟨hsuffix.trans (List.drop_suffix _ _), ?_⟩
    change (emitLines wantEnter pos' rest').pos + (emitLines wantEnter pos' rest').rest.length = _
    omega

/-- What `emit_lines` reports belongs to no record, and its cursor stays in the
data. -/
theorem emitLines_cursor (wantEnter : Bool) (pos : Nat) (text : Bytes) :
    (emitLines wantEnter pos text).events.flatMap Event.bytes = [] ∧
      pos ≤ (emitLines wantEnter pos text).pos ∧
      (emitLines wantEnter pos text).pos ≤ pos + text.length := by
  obtain ⟨hsuffix, hlen⟩ := emitLines_pos wantEnter pos text
  have hle := hsuffix.length_le
  refine ⟨?_, by omega, by omega⟩
  rw [List.flatMap_eq_nil_iff]
  intro e he
  have hline := emitLines_isLine wantEnter pos text e he
  cases e with
  | pjlLine => rfl
  | page | band | endPage | endJob => exact absurd hline Bool.false_ne_true

/-- How a walk fails: with an error code, at an offset in the data. -/
structure WalkResult.FailedIn (r : WalkResult) (start stop : Nat) : Prop where
  rc : r.rc = ETRUNCATED ∨ r.rc = ERECORD
  offset : ∃ pos, r.errorOffset = some pos ∧ start ≤ pos ∧ pos ≤ stop

theorem walkTrailer_spec (pos : Nat) {trailer : Bytes} (h : ShortLines trailer) :
    (walkTrailer pos trailer).events.flatMap Event.bytes = [] ∧
      ((walkTrailer pos trailer).rc = OK ∧ IsTrailer trailer ∨
        (walkTrailer pos trailer).FailedIn pos (pos + trailer.length)) := by
  obtain ⟨hevents, hge, hle⟩ := emitLines_cursor false pos trailer
  have hall := emitLines_all_iff pos trailer h
  unfold walkTrailer
  by_cases huel : uel.isPrefixOf trailer = true
  · rw [if_pos huel]
    have hfirst := List.isPrefixOf_iff_prefix.mp huel
    dsimp only
    split_ifs with hrest
    · exact ⟨hevents, .inl ⟨rfl, .inr ⟨hfirst, hall.mp hrest⟩⟩⟩
    · exact ⟨hevents, .inr ⟨.inr rfl, _, rfl, hge, hle⟩⟩
  · rw [if_neg huel]
    split_ifs with hnil
    · exact ⟨rfl, .inl ⟨rfl, .inl hnil⟩⟩
    · exact ⟨rfl, .inr ⟨.inr rfl, pos, rfl, le_refl _, Nat.le_add_right _ _⟩⟩

/-- A walk over the records of `s`, at `pos`: it accepts a job and reports its
bytes, or it fails inside `s`. -/
def RecordsRead (pos : Nat) (s : Bytes) (r : WalkResult) : Prop :=
  (r.rc = OK ∧ ∃ (rs : List Bytes) (rest : Bytes), (∀ b ∈ rs, IsRecord b) ∧
    s = rs.flatten ++ rest ∧ IsEnd rest ∧
    r.events.flatMap Event.bytes = rs.flatten ++ rest.take 1) ∨
  r.FailedIn pos (pos + s.length)

/-- One more record in front. -/
theorem RecordsRead.cons {pos : Nat} {b s : Bytes} {e : Event} {r : WalkResult} (hb : IsRecord b)
    (he : e.bytes = b) (h : RecordsRead (pos + b.length) s r) :
    RecordsRead pos (b ++ s) (r.cons e) := by
  rcases h with ⟨hrc, rs, rest, hrs, rfl, hend, hevents⟩ | ⟨hrc, p, hp, hge, hle⟩
  · refine .inl ⟨hrc, b :: rs, rest, ?_, ?_, hend, ?_⟩
    · intro b' hb'
      rcases List.mem_cons.mp hb' with rfl | hb'
      · exact hb
      · exact hrs b' hb'
    · rw [List.flatten_cons, List.append_assoc]
    · show (e :: r.events).flatMap Event.bytes = _
      rw [List.flatMap_cons, he, hevents, List.flatten_cons, List.append_assoc]
  · refine .inr ⟨hrc, p, hp, by omega, ?_⟩
    rw [List.length_append]
    omega

theorem ShortTrailer.drop {b s : Bytes} (hb : IsRecord b) (h : ShortTrailer (b ++ s)) :
    ShortTrailer s := by
  intro rs trailer hrs hs
  refine h (b :: rs) trailer ?_ (by rw [hs, List.flatten_cons, List.append_assoc])
  intro b' hb'
  rcases List.mem_cons.mp hb' with rfl | hb'
  · exact hb
  · exact hrs b' hb'

theorem failedIn_fail {pos : Nat} {s : Bytes} {rc : Int} (h : rc = ETRUNCATED ∨ rc = ERECORD) :
    RecordsRead pos s (fail pos rc) :=
  .inr ⟨h, pos, rfl, le_refl _, Nat.le_add_right _ _⟩

/-- A page header is refused only for its length. -/
theorem parsePageHeader_error {tail : Bytes} {rc : Int}
    (h : parsePageHeader (REC_PAGE :: tail) = .error rc) : rc = ETRUNCATED := by
  unfold parsePageHeader at h
  split_ifs at h with hlen hrec
  · exact (Except.error.inj h).symm
  · exact absurd rfl hrec

theorem parseBandHeader_error {tail : Bytes} {rc : Int}
    (h : parseBandHeader (REC_BAND :: tail) = .error rc) : rc = ETRUNCATED := by
  unfold parseBandHeader at h
  split_ifs at h with hlen hrec
  · exact (Except.error.inj h).symm
  · exact absurd rfl hrec

/-- One step for each kind of record; the end of the job and every failure end
the walk. -/
theorem walkRecords_spec (pos : Nat) (s : Bytes) (hshort : ShortTrailer s) :
    RecordsRead pos s (walkRecords pos s) := by
  fun_induction walkRecords pos s with
  | case1 pos =>
    exact .inl ⟨rfl, [], [], fun b hb => absurd hb List.not_mem_nil, rfl, .inl rfl, rfl⟩
  | case2 pos tail rc hp => exact failedIn_fail (.inl (parsePageHeader_error hp))
  | case3 pos tail h n hp ih =>
    obtain ⟨rfl, -⟩ := parsePageHeader_consumed hp
    have hrecord := isRecord_bytes (.page h)
    have hs := eq_page_append hp
    have hshort' : ShortTrailer ((Record.page h).bytes ++ (REC_PAGE :: tail).drop 17) := by
      rw [← hs]
      exact hshort
    have hread := RecordsRead.cons (e := .page pos h) hrecord rfl (ih (hshort'.drop hrecord))
    rwa [← hs] at hread
  | case4 pos tail rc _ hp => exact failedIn_fail (.inl (parseBandHeader_error hp))
  | case5 pos tail h n _ hp body hlt => exact failedIn_fail (.inl rfl)
  | case6 pos tail h n _ hp body hlt ih =>
    obtain ⟨rfl, -⟩ := parseBandHeader_consumed hp
    let r : Record := .band h (body.take h.length.toNat) (List.length_take_of_le (by omega))
    have hs : REC_BAND :: tail = r.bytes ++ body.drop h.length.toNat :=
      eq_band_append hp (not_lt.mp hlt)
    have hlen : r.bytes.length = 11 + h.length.toNat := by
      show (writeBandHeader h ++ body.take h.length.toNat).length = _
      rw [List.length_append, length_writeBandHeader, List.length_take_of_le (by omega)]
    rw [hs] at hshort ⊢
    have hmore := ih (hshort.drop (isRecord_bytes r))
    rw [← hlen] at hmore
    rw [← hlen]
    exact .cons (isRecord_bytes r) rfl hmore
  | case7 pos tail _ _ hlt => exact failedIn_fail (.inl rfl)
  | case8 pos tail _ _ hlt ih =>
    let r : Record := .endPage (rd16be (REC_END_PAGE :: tail) 1)
    have hrecord := isRecord_bytes r
    have hs : REC_END_PAGE :: tail = r.bytes ++ (REC_END_PAGE :: tail).drop 3 :=
      eq_endPage_append (by omega) rfl
    have hshort' : ShortTrailer (r.bytes ++ (REC_END_PAGE :: tail).drop 3) := by
      rw [← hs]
      exact hshort
    have hread := RecordsRead.cons (e := r.event pos) hrecord rfl (ih (hshort'.drop hrecord))
    rwa [← hs] at hread
  | case9 pos tail _ _ _ =>
    have htext : ShortLines tail := hshort [] tail (fun b hb => absurd hb List.not_mem_nil) rfl
    obtain ⟨hevents, ⟨hrc, htrailer⟩ | ⟨hrc, p, hp, hge, hle⟩⟩ := walkTrailer_spec (pos + 1) htext
    · refine .inl ⟨hrc, [], REC_END_JOB :: tail, fun b hb => absurd hb List.not_mem_nil, rfl,
        .inr ⟨tail, rfl, htrailer⟩, ?_⟩
      show (Event.endJob pos :: (walkTrailer (pos + 1) tail).events).flatMap Event.bytes = _
      rw [List.flatMap_cons, hevents]
      rfl
    · refine .inr ⟨hrc, p, hp, by omega, ?_⟩
      rw [List.length_cons]
      omega
  | case10 pos t tail _ _ _ _ => exact failedIn_fail (.inr rfl)

/-- A job of the grammar is accepted. -/
theorem walkRecords_isJob (pos : Nat) {s : Bytes} (hshort : ShortTrailer s) (h : IsJob s) :
    (walkRecords pos s).rc = OK := by
  obtain ⟨bs, rest, hbs, rfl, hend⟩ := h
  obtain ⟨rs, hrs⟩ := exists_records hbs
  rw [← hrs, walkRecords_records]
  dsimp only
  rcases hend with rfl | ⟨trailer, rfl, htrailer⟩
  · rw [walkRecords]
  · have htext := hshort bs trailer hbs rfl
    rw [walkRecords, if_neg (by decide), if_neg (by decide), if_neg (by decide), if_pos rfl]
    show (walkTrailer _ trailer).rc = OK
    rcases htrailer with rfl | ⟨hfirst, hall⟩
    · rfl
    · unfold walkTrailer
      rw [if_pos (List.isPrefixOf_iff_prefix.mpr hfirst)]
      dsimp only
      rw [if_pos ((emitLines_all_iff _ trailer htext).mpr hall)]

/-! ## The whole walk -/

/-- The lines of an envelope are read to the end of the one that ends it. -/
theorem emitLines_envelope (pos : Nat) (before : List Bytes) (enter s : Bytes)
    (hlines : ∀ l ∈ before ++ [enter], IsPjlLine l)
    (hbefore : ∀ l ∈ before, isEnterLine (trimmed l) = false)
    (henter : isEnterLine (trimmed enter) = true) :
    ∃ events, events.flatMap Event.bytes = [] ∧
      emitLines true pos ((before ++ [enter]).flatMap (· ++ [0x0A]) ++ s) =
        ⟨events, pos + ((before ++ [enter]).flatMap (· ++ [0x0A])).length, s, true⟩ := by
  induction before generalizing pos with
  | nil =>
    have hsplit : ([] ++ [enter]).flatMap (· ++ [0x0A]) ++ s = enter ++ 0x0A :: s := by simp
    have hlen : (([] ++ [enter]).flatMap (· ++ [(0x0A : UInt8)])).length = enter.length + 1 := by
      simp
    rw [hsplit, hlen, emitLines_newline true pos s (hlines enter (by simp)), henter]
    exact ⟨_, rfl, rfl⟩
  | cons l before ih =>
    have hsplit : (l :: before ++ [enter]).flatMap (· ++ [0x0A]) ++ s =
        l ++ 0x0A :: ((before ++ [enter]).flatMap (· ++ [0x0A]) ++ s) := by simp
    have hlen : ((l :: before ++ [enter]).flatMap (· ++ [(0x0A : UInt8)])).length =
        l.length + 1 + ((before ++ [enter]).flatMap (· ++ [(0x0A : UInt8)])).length := by
      rw [List.cons_append, List.flatMap_cons, List.length_append, List.length_append]
      rfl
    obtain ⟨events, hevents, hmore⟩ := ih (pos + l.length + 1)
      (fun l' hl' => hlines l' (List.mem_cons_of_mem l hl'))
      (fun l' hl' => hbefore l' (List.mem_cons_of_mem l hl'))
    rw [hsplit, hlen, emitLines_newline true pos _ (hlines l (by simp)),
      hbefore l List.mem_cons_self, Bool.and_false, if_neg (by decide), hmore]
    refine ⟨.pjlLine pos (trimmed l) :: events, hevents, ?_⟩
    dsimp only
    congr 1
    omega

/-- Behind an envelope, the walk returns 0 on exactly the jobs of the grammar,
and what it reports is written as their bytes.  Otherwise it returns an error
code and an offset behind the envelope. -/
theorem walk_grammar (before : List Bytes) (enter s : Bytes)
    (hlines : ∀ l ∈ before ++ [enter], IsPjlLine l)
    (hbefore : ∀ l ∈ before, isEnterLine (trimmed l) = false)
    (henter : isEnterLine (trimmed enter) = true) (hshort : ShortTrailer s) :
    let e := (before ++ [enter]).flatMap (· ++ [0x0A])
    let r := walk (e ++ s)
    (r.rc = OK ↔ IsJob s) ∧
      (r.rc = OK → ∃ (rs : List Bytes) (rest : Bytes), (∀ b ∈ rs, IsRecord b) ∧
        s = rs.flatten ++ rest ∧ IsEnd rest ∧
        r.events.flatMap Event.bytes = rs.flatten ++ rest.take 1) ∧
      (r.rc ≠ OK → r.FailedIn e.length (e ++ s).length) := by
  intro e r
  obtain ⟨events, hevents, henvelope⟩ := emitLines_envelope 0 before enter s hlines hbefore henter
  rw [Nat.zero_add] at henvelope
  have hr : r = { walkRecords e.length s with
      events := events ++ (walkRecords e.length s).events } := by
    show walk (e ++ s) = _
    rw [walk, henvelope]
    rfl
  have hread := walkRecords_spec e.length s hshort
  have hok : r.rc = OK → ∃ (rs : List Bytes) (rest : Bytes), (∀ b ∈ rs, IsRecord b) ∧
      s = rs.flatten ++ rest ∧ IsEnd rest ∧
      r.events.flatMap Event.bytes = rs.flatten ++ rest.take 1 := by
    intro hrc
    rw [hr] at hrc ⊢
    rcases hread with ⟨-, rs, rest, hrs, hs, hend, hbytes⟩ | ⟨hfail, -⟩
    · refine ⟨rs, rest, hrs, hs, hend, ?_⟩
      rw [List.flatMap_append, hevents, List.nil_append, hbytes]
    · exfalso
      rcases hfail with hfail | hfail
      · exact absurd (hfail.symm.trans hrc) (by decide)
      · exact absurd (hfail.symm.trans hrc) (by decide)
  refine ⟨⟨fun hrc => ?_, fun hjob => ?_⟩, hok, fun hrc => ?_⟩
  · obtain ⟨rs, rest, hrs, hs, hend, -⟩ := hok hrc
    exact ⟨rs, rest, hrs, hs, hend⟩
  · rw [hr]
    exact walkRecords_isJob e.length hshort hjob
  · rw [List.length_append]
    rw [hr] at hrc ⊢
    rcases hread with ⟨hno, -⟩ | ⟨hfail, hoffset⟩
    · exact absurd hno hrc
    · exact ⟨hfail, hoffset⟩

/-- A short job has no line above the limit. -/
theorem shortTrailer_of_length {s : Bytes} (h : s.length ≤ 4096) : ShortTrailer s := by
  intro rs trailer _ hs line hin _
  have hle := hin.length_le
  rw [hs, List.length_append, List.length_cons] at h
  omega

/-- The line that ends an envelope. -/
def sampleEnterLine : Bytes := ascii "@PJL ENTER LANGUAGE=QPDL"

/-- An end of page and an end of job behind an envelope of one line. -/
theorem walk_grammar_sample :
    let e := ([] ++ [sampleEnterLine]).flatMap (· ++ [0x0A])
    let s : Bytes := [0x01, 0x00, 0x02, 0x09]
    let r := walk (e ++ s)
    (r.rc = OK ↔ IsJob s) ∧
      (r.rc = OK → ∃ (rs : List Bytes) (rest : Bytes), (∀ b ∈ rs, IsRecord b) ∧
        s = rs.flatten ++ rest ∧ IsEnd rest ∧
        r.events.flatMap Event.bytes = rs.flatten ++ rest.take 1) ∧
      (r.rc ≠ OK → r.FailedIn e.length (e ++ s).length) := by
  have hline : IsPjlLine sampleEnterLine := ⟨by decide +kernel, by decide +kernel, by decide +kernel⟩
  refine walk_grammar [] sampleEnterLine [0x01, 0x00, 0x02, 0x09] ?_ ?_ (by decide)
    (shortTrailer_of_length (by decide))
  · intro l hl
    rw [List.mem_singleton.mp hl]
    exact hline
  · intro l hl
    exact absurd hl List.not_mem_nil

end Airbridge.Qpdl
