import Airbridge.Qpdl.Grammar

/-!
# A job cut off anywhere

The walker over a prefix `p` of `p ++ q`.  The cut may fall anywhere: in a
text line, in a record or in the text behind the end of the job.

* In the envelope, a line that ends inside the prefix is read the same way.
  The line the cut falls in is the last thing the walker sees, also when it
  mentions `ENTER LANGUAGE`: there are no records behind it
  (`emitLines_append`).
* In the records, what was read before the cut is read again, and the record
  the cut falls in is not reported (`walkRecords_append`).
-/

namespace Airbridge.Qpdl

/-- The page, band, end-of-page and end-of-job callbacks of a walk. -/
def WalkResult.records (r : WalkResult) : List Event := r.events.filter fun e => !e.isLine

theorem records_cons {e : Event} (he : e.isLine = false) (r : WalkResult) :
    (r.cons e).records = e :: r.records := by
  unfold WalkResult.records WalkResult.cons
  rw [List.filter_cons, he]
  rfl

/-! ## Text lines -/

theorem filter_lines {events : List Event} (h : ∀ e ∈ events, e.isLine = true) :
    events.filter (fun e => !e.isLine) = [] := by
  rw [List.filter_eq_nil_iff]
  intro e he
  rw [h e he]
  decide

/-- A line that ends inside the data ends there whatever follows. -/
theorem lineLength_extend {room n : Nat} {p : Bytes} (q : Bytes) (h : lineLength room p = some n)
    (hlt : n < p.length) : lineLength room (p ++ q) = some n := by
  induction room generalizing p n with
  | zero => exact h
  | succ room ih =>
    cases p with
    | nil => exact absurd hlt (Nat.not_lt_zero _)
    | cons c p =>
      rw [List.cons_append]
      unfold lineLength at h ⊢
      split_ifs at h ⊢ with hnl htext
      · exact h
      · obtain ⟨k, hk, rfl⟩ := Option.map_eq_some_iff.mp h
        rw [ih hk (Nat.lt_of_succ_lt_succ hlt)]
        rfl

theorem trimCr_extend {n : Nat} {p : Bytes} (q : Bytes) (hle : n ≤ p.length) :
    trimCr (p ++ q) n = trimCr p n := by
  unfold trimCr
  rcases Nat.eq_zero_or_pos n with rfl | hpos
  · rfl
  · rw [byteAt_append q (by omega), List.take_append_of_le_length (by omega),
      List.take_append_of_le_length hle]

theorem emitLines_nil (wantEnter : Bool) (pos : Nat) :
    emitLines wantEnter pos [] = ⟨[], pos, [], false⟩ := by
  rw [emitLines]

/-- A line that ends inside the data, with anything behind the data. -/
theorem emitLines_line_append (wantEnter : Bool) (pos : Nat) {c : UInt8} {tail : Bytes} (q : Bytes)
    {n : Nat} (hc : isTextByte c = true) (hline : lineLength 4096 (c :: tail) = some n)
    (hlt : n + 1 < (c :: tail).length) :
    emitLines wantEnter pos (c :: tail ++ q) =
      let line := trimCr (c :: tail) n
      let pos' := pos + min (n + 1) (c :: tail).length
      let rest' := (c :: tail).drop (n + 1)
      if wantEnter && isEnterLine line then ⟨[.pjlLine pos line], pos', rest' ++ q, true⟩
      else
        let more := emitLines wantEnter pos' (rest' ++ q)
        { more with events := .pjlLine pos line :: more.events } := by
  have hextend := lineLength_extend q hline (by omega)
  have htrim : trimCr (c :: tail ++ q) n = trimCr (c :: tail) n := trimCr_extend q (by omega)
  have hdrop : (c :: tail ++ q).drop (n + 1) = (c :: tail).drop (n + 1) ++ q :=
    List.drop_append_of_le_length hlt.le
  have hmin : min (n + 1) (c :: tail ++ q).length = min (n + 1) (c :: tail).length := by
    rw [List.length_append]
    omega
  rw [List.cons_append] at hextend htrim hdrop hmin ⊢
  rw [emitLines]
  simp only [hc, hextend, htrim, hdrop, hmin, Bool.not_true, Bool.false_eq_true, if_false]

/-- An envelope that ends inside the data ends there whatever follows. -/
theorem emitLines_append (pos : Nat) (p q : Bytes) (hsaw : (emitLines true pos p).sawEnter = true)
    (hrest : (emitLines true pos p).rest ≠ []) :
    emitLines true pos (p ++ q) =
      { emitLines true pos p with rest := (emitLines true pos p).rest ++ q } := by
  fun_induction emitLines true pos p with
  | case1 | case2 | case3 => exact absurd hsaw Bool.false_ne_true
  | case4 pos c tail hc n hline line pos' rest' henter =>
    have hlt : n + 1 < (c :: tail).length := by
      by_contra hge
      exact hrest (List.drop_eq_nil_of_le (not_lt.mp hge))
    rw [emitLines_line_append true pos q (by simpa using hc) hline hlt]
    exact if_pos henter
  | case5 pos c tail hc n hline line pos' rest' henter more ih =>
    have hne : rest' ≠ [] := by
      intro hnil
      have hnone : more.sawEnter = false := by
        show (emitLines true pos' rest').sawEnter = false
        rw [hnil, emitLines_nil]
      exact absurd (hnone.symm.trans hsaw) (by decide)
    have hlt : n + 1 < (c :: tail).length := by
      by_contra hge
      exact hne (List.drop_eq_nil_of_le (not_lt.mp hge))
    rw [emitLines_line_append true pos q (by simpa using hc) hline hlt]
    refine (if_neg henter).trans ?_
    show ({ emitLines true pos' (rest' ++ q) with events := _ } : Lines) = _
    rw [ih hsaw hrest]

/-! ## Records -/

/-- What the record loop finds: the end of the data, a record, the end of the
job, a record that is cut off, or a byte that begins nothing. -/
theorem walkRecords_cases (pos : Nat) (s : Bytes) :
    s = [] ∨ (∃ (r : Record) (s' : Bytes), s = r.bytes ++ s') ∨
      (∃ tail, s = REC_END_JOB :: tail) ∨ walkRecords pos s = fail pos ETRUNCATED ∨
      ∃ t tail, s = t :: tail ∧ ∀ pos behind, walkRecords pos (t :: behind) = fail pos ERECORD := by
  fun_cases walkRecords pos s with
  | case1 => exact .inl rfl
  | case2 tail rc hp =>
    rw [parsePageHeader_error hp]
    exact .inr (.inr (.inr (.inl rfl)))
  | case3 tail h n hp => exact .inr (.inl ⟨.page h, _, eq_page_append hp⟩)
  | case4 tail rc hpage hp =>
    rw [parseBandHeader_error hp]
    exact .inr (.inr (.inr (.inl rfl)))
  | case5 => exact .inr (.inr (.inr (.inl rfl)))
  | case6 tail h n hpage hp body hlen =>
    obtain ⟨rfl, -⟩ := parseBandHeader_consumed hp
    exact .inr (.inl ⟨_, _, eq_band_append hp (not_lt.mp hlen)⟩)
  | case7 => exact .inr (.inr (.inr (.inl rfl)))
  | case8 tail hpage hband hlen =>
    exact .inr (.inl ⟨_, _, eq_endPage_append (not_lt.mp hlen) rfl⟩)
  | case9 tail => exact .inr (.inr (.inl ⟨tail, rfl⟩))
  | case10 t tail hpage hband hend hjob =>
    refine .inr (.inr (.inr (.inr ⟨t, tail, rfl, ?_⟩)))
    intro pos behind
    rw [walkRecords, if_neg hpage, if_neg hband, if_neg hend, if_neg hjob]

theorem Record.bytes_pos (r : Record) : 0 < r.bytes.length := by
  cases r with
  | page h => exact Nat.zero_lt_succ _
  | band h payload hlen => exact Nat.zero_lt_succ _
  | endPage copies => exact Nat.zero_lt_succ _

theorem walkRecords_end (pos : Nat) (tail : Bytes) :
    walkRecords pos (REC_END_JOB :: tail) = (walkTrailer (pos + 1) tail).cons (.endJob pos) := by
  rw [walkRecords, if_neg (by decide), if_neg (by decide), if_neg (by decide), if_pos rfl]

/-- Behind the end of the job there is only text. -/
theorem walkTrailer_records (pos : Nat) (tail : Bytes) : (walkTrailer pos tail).records = [] := by
  apply filter_lines
  unfold walkTrailer
  dsimp only
  split_ifs
  · exact emitLines_isLine false pos tail
  · exact emitLines_isLine false pos tail
  · exact fun e he => absurd he List.not_mem_nil
  · exact fun e he => absurd he List.not_mem_nil

theorem walkTrailer_rc (pos : Nat) (tail : Bytes) :
    (walkTrailer pos tail).rc = OK ∨ (walkTrailer pos tail).rc = ERECORD ∧ tail ≠ [] := by
  unfold walkTrailer
  dsimp only
  split_ifs with huel hrest hnil
  · exact .inl rfl
  · refine .inr ⟨rfl, ?_⟩
    rintro rfl
    exact absurd huel (by decide)
  · exact .inl rfl
  · exact .inr ⟨rfl, hnil⟩

/-- How the record loop ends on a prefix of accepted records. -/
def CutRc (pos : Nat) (s : Bytes) (r : WalkResult) : Prop :=
  r.rc = OK ∨ r.rc = ETRUNCATED ∨
    r.rc = ERECORD ∧ ∃ k, .endJob k ∈ r.events ∧ k + 1 < pos + s.length

theorem CutRc.cons {pos : Nat} {a s : Bytes} {e : Event} {r : WalkResult}
    (h : CutRc (pos + a.length) s r) : CutRc pos (a ++ s) (r.cons e) := by
  rcases h with hok | hcut | ⟨hrec, k, hk, hlt⟩
  · exact .inl hok
  · exact .inr (.inl hcut)
  · refine .inr (.inr ⟨hrec, k, List.mem_cons_of_mem e hk, ?_⟩)
    rw [List.length_append]
    omega

/-- The records of a prefix are read as before, up to the one the cut falls
in. -/
theorem walkRecords_append (pos : Nat) (s q : Bytes) :
    (walkRecords pos s).records <+: (walkRecords pos (s ++ q)).records ∧
      ((walkRecords pos (s ++ q)).rc = OK → CutRc pos s (walkRecords pos s)) := by
  induction hn : s.length using Nat.strongRecOn generalizing pos s with
  | ind n ih =>
    rcases walkRecords_cases pos s with
      rfl | ⟨r, s', rfl⟩ | ⟨tail, rfl⟩ | hcut | ⟨t, tail, rfl, hfail⟩
    · rw [walkRecords]
      exact ⟨List.nil_prefix, fun _ => .inl rfl⟩
    · have hlt : s'.length < n := by
        have hpos := r.bytes_pos
        rw [← hn, List.length_append]
        omega
      have hline : (r.event pos).isLine = false := by cases r <;> rfl
      obtain ⟨hpre, hrc⟩ := ih _ hlt (pos + r.bytes.length) s' rfl
      rw [List.append_assoc, walkRecords_record, walkRecords_record, records_cons hline,
        records_cons hline]
      exact ⟨List.cons_prefix_cons.mpr ⟨rfl, hpre⟩, fun hok => (hrc hok).cons⟩
    · rw [List.cons_append, walkRecords_end, walkRecords_end, records_cons rfl, records_cons rfl,
        walkTrailer_records, walkTrailer_records]
      refine ⟨List.prefix_refl _, fun _ => ?_⟩
      rcases walkTrailer_rc (pos + 1) tail with hok | ⟨hrec, hne⟩
      · exact .inl hok
      · have hlen := List.length_pos_of_ne_nil hne
        refine .inr (.inr ⟨hrec, pos, List.mem_cons_self, ?_⟩)
        rw [List.length_cons]
        omega
    · rw [hcut]
      exact ⟨List.nil_prefix, fun _ => .inr (.inl rfl)⟩
    · rw [List.cons_append, hfail, hfail]
      refine ⟨List.prefix_refl _, fun hok => ?_⟩
      exact absurd (show ERECORD = OK from hok) (by decide)

/-! ## The whole walk -/

theorem walk_of_enter {data : Bytes} (h : (emitLines true 0 data).sawEnter = true) :
    walk data =
      let lines := emitLines true 0 data
      let r := walkRecords lines.pos lines.rest
      { r with events := lines.events ++ r.events } := by
  rw [walk, h]
  rfl

/-- The records of a walk are those behind its envelope. -/
theorem walk_records {data : Bytes} (h : (emitLines true 0 data).sawEnter = true) :
    (walk data).records =
      (walkRecords (emitLines true 0 data).pos (emitLines true 0 data).rest).records := by
  rw [walk_of_enter h]
  unfold WalkResult.records
  dsimp only
  rw [List.filter_append, filter_lines (emitLines_isLine true 0 data), List.nil_append]

/-- The records of a prefix are the first ones of the whole data. -/
theorem records_prefix {p data : Bytes} (hp : p <+: data) :
    (walk p).records <+: (walk data).records := by
  obtain ⟨q, rfl⟩ := hp
  cases hsaw : (emitLines true 0 p).sawEnter with
  | false =>
    have hnone : (walk p).records = [] := by
      rw [walk, hsaw]
      exact filter_lines (emitLines_isLine true 0 p)
    rw [hnone]
    exact List.nil_prefix
  | true =>
    by_cases hrest : (emitLines true 0 p).rest = []
    · rw [walk_records hsaw, hrest, walkRecords]
      exact List.nil_prefix
    · have happend := emitLines_append 0 p q hsaw hrest
      rw [walk_records hsaw, walk_records (by rw [happend, hsaw]), happend]
      exact (walkRecords_append _ _ q).1

/-- Truncation never invents or changes records.  The page, band, end-of-page
and end-of-job callbacks of a prefix, with their offsets, headers and
payloads, are the first ones of the whole data.  If the walk over the whole
data returns 0, the one over the prefix returns 0, `ENOPJL` or `ETRUNCATED`,
or `ERECORD` when the prefix ends inside the text behind the end-of-job byte. -/
theorem walk_truncated (p data : Bytes) (hp : p <+: data) :
    (walk p).records <+: (walk data).records ∧
      ((walk data).rc = OK → (∃ k, .endJob k ∈ (walk data).events) →
        (walk p).rc = OK ∨ (walk p).rc = ENOPJL ∨ (walk p).rc = ETRUNCATED ∨
          (walk p).rc = ERECORD ∧
            ∃ k, .endJob k ∈ (walk data).events ∧ k + 1 < p.length ∧ p.length < data.length) := by
  obtain ⟨q, rfl⟩ := hp
  by_cases hsaw : (emitLines true 0 p).sawEnter = true
  swap
  · -- no envelope, no records
    have hwalk : walk p = ⟨(emitLines true 0 p).events, ENOPJL, some (emitLines true 0 p).pos⟩ := by
      rw [Bool.not_eq_true] at hsaw
      rw [walk, hsaw]
      rfl
    have hnone : (walk p).records = [] := by
      rw [hwalk]
      exact filter_lines (emitLines_isLine true 0 p)
    rw [hnone, hwalk]
    exact ⟨List.nil_prefix, fun _ _ => .inr (.inl rfl)⟩
  by_cases hrest : (emitLines true 0 p).rest = []
  · -- the cut falls into the last line of the envelope, or right behind it
    have hnil : walkRecords (emitLines true 0 p).pos (emitLines true 0 p).rest = ⟨[], OK, none⟩ := by
      rw [hrest, walkRecords]
    have hnone : (walk p).records = [] := by
      rw [walk_records hsaw, hnil]
      rfl
    have hrc : (walk p).rc = OK := by
      rw [walk_of_enter hsaw]
      dsimp only
      rw [hnil]
    rw [hnone, hrc]
    exact ⟨List.nil_prefix, fun _ _ => .inl rfl⟩
  have happend := emitLines_append 0 p q hsaw hrest
  have hsaw' : (emitLines true 0 (p ++ q)).sawEnter = true := by rw [happend, hsaw]
  obtain ⟨hpre, hrc⟩ := walkRecords_append (emitLines true 0 p).pos (emitLines true 0 p).rest q
  have hrecords : (walk p).records <+: (walk (p ++ q)).records := by
    rw [walk_records hsaw, walk_records hsaw', happend]
    exact hpre
  refine ⟨hrecords, ?_⟩
  intro hok _
  have hok' := hok
  rw [walk_of_enter hsaw', happend] at hok'
  have hcut := hrc hok'
  have hrcp : (walk p).rc =
      (walkRecords (emitLines true 0 p).pos (emitLines true 0 p).rest).rc := by
    rw [walk_of_enter hsaw]
  rcases hcut with hok | hcut | ⟨hrec, k, hk, hlt⟩
  · exact .inl (hrcp.trans hok)
  · exact .inr (.inr (.inl (hrcp.trans hcut)))
  · refine .inr (.inr (.inr ⟨hrcp.trans hrec, k, ?_, ?_, ?_⟩))
    · have hmem : Event.endJob k ∈ (walk p).records := by
        rw [walk_records hsaw]
        exact List.mem_filter.mpr ⟨hk, rfl⟩
      exact (List.mem_filter.mp (hrecords.subset hmem)).1
    · have hpos := (emitLines_pos true 0 p).2
      omega
    · rw [List.length_append]
      have hq : q ≠ [] := by
        rintro rfl
        rw [List.append_nil, hrcp, hrec] at hok
        exact absurd hok (by decide)
      have := List.length_pos_of_ne_nil hq
      omega

/-- An end of page that lost its last byte, and the end of the job with it. -/
theorem walk_truncated_sample :
    let p : Bytes := sampleEnterLine ++ [0x0A, 0x01, 0x00]
    let data : Bytes := sampleEnterLine ++ [0x0A, 0x01, 0x00] ++ [0x02, 0x09]
    (walk p).records <+: (walk data).records ∧
      ((walk data).rc = OK → (∃ k, .endJob k ∈ (walk data).events) →
        (walk p).rc = OK ∨ (walk p).rc = ENOPJL ∨ (walk p).rc = ETRUNCATED ∨
          (walk p).rc = ERECORD ∧
            ∃ k, .endJob k ∈ (walk data).events ∧ k + 1 < p.length ∧ p.length < data.length) :=
  walk_truncated _ _ (List.prefix_append _ _)

end Airbridge.Qpdl
