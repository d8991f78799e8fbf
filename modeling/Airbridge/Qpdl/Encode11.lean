import Airbridge.Lib.Writer
import Airbridge.Qpdl.Decode11

/-!
# The encoder writes a payload of its band

`codec11Encode` against the grammar of `Format11`.  The greedy parse is
written down a second time as a token list (`greedyToks`), without capacities
and without bytes.  Three facts about it carry the round trip: the encoder
writes exactly its bytes (`encodePayload_writes`), it expands to the band
(`expand_greedyToks`), and it is never longer than the size bound
(`size_greedyToks`).
-/

namespace Airbridge.Qpdl

open Writer (Writes)

/-! ## What the match search finds -/

/-- The loop of `match_len` counts equal bytes. -/
theorem matchLenLoop_spec (band : Bytes) (p s room n : Nat) :
    n ≤ matchLenLoop band p s room n ∧ matchLenLoop band p s room n ≤ n + room ∧
      ∀ k, n ≤ k → k < matchLenLoop band p s room n →
        byteAt band (p + k) = byteAt band (s + k) := by
  induction room generalizing n with
  | zero => exact ⟨le_refl _, le_refl _, fun k h1 h2 => absurd h2 (by rw [matchLenLoop]; omega)⟩
  | succ room ih =>
    rw [matchLenLoop]
    split_ifs with heq
    · obtain ⟨h1, h2, h3⟩ := ih (n + 1)
      refine ⟨by omega, by omega, fun k hk hlt => ?_⟩
      rcases Nat.eq_or_lt_of_le hk with rfl | hk
      · exact heq
      · exact h3 k hk hlt
    · exact ⟨le_refl _, by omega, fun k h1 h2 => by omega⟩

theorem matchLen_le (band : Bytes) (pos d max : Nat) : matchLen band pos d max ≤ max := by
  have := (matchLenLoop_spec band pos (pos - d) max 0).2.1
  rw [matchLen]
  omega

theorem matchLen_eq_bytes (band : Bytes) (pos d max k : Nat) (hk : k < matchLen band pos d max) :
    byteAt band (pos + k) = byteAt band (pos - d + k) :=
  (matchLenLoop_spec band pos (pos - d) max 0).2.2 k (Nat.zero_le k) hk

/-- `m` bytes at `pos` repeat at the distance in slot `i`. -/
structure IsMatch (band : Bytes) (pos : Nat) (entries : List UInt16) (m i : Nat) : Prop where
  slot : i < entries.length
  dist_pos : 0 < (entries.getD i 0).toNat
  dist_le : (entries.getD i 0).toNat ≤ pos
  same : ∀ k < m, byteAt band (pos + k) = byteAt band (pos - (entries.getD i 0).toNat + k)

/-- What is left of the table behind slot `i`. -/
theorem drop_eq_cons {entries ts : List UInt16} {t : UInt16} {i : Nat}
    (h : entries.drop i = t :: ts) :
    i < entries.length ∧ entries.getD i 0 = t ∧ entries.drop (i + 1) = ts := by
  have hi : i < entries.length := by
    by_contra hge
    rw [List.drop_eq_nil_of_le (by omega)] at h
    cases h
  refine ⟨hi, ?_, ?_⟩
  · have hhead := congrArg List.head? h
    rw [List.head?_drop] at hhead
    simpa [List.getD_eq_getElem?_getD] using congrArg (Option.getD · 0) hhead
  · rw [← List.tail_drop, h]
    rfl

/-- The search keeps a best candidate that is a match. -/
theorem longestMatchLoop_isMatch (band : Bytes) (pos max : Nat) (entries ts : List UInt16)
    (i best index : Nat) (hts : entries.drop i = ts)
    (hbest : best ≤ max ∧ (best = 0 ∨ IsMatch band pos entries best index)) :
    let r := longestMatchLoop band pos max ts i best index
    r.1 ≤ max ∧ (r.1 = 0 ∨ IsMatch band pos entries r.1 r.2) := by
  induction ts generalizing i best index with
  | nil => exact hbest
  | cons t ts ih =>
    obtain ⟨hi, ht, hrest⟩ := drop_eq_cons hts
    have hmatch (hd : ¬(t.toNat = 0 ∨ t.toNat > pos)) :
        IsMatch band pos entries (matchLen band pos t.toNat max) i :=
      ⟨hi, by rw [ht]; omega, by rw [ht]; omega,
        fun k hk => by rw [ht]; exact matchLen_eq_bytes band pos t.toNat max k hk⟩
    rw [longestMatchLoop]
    dsimp only
    split_ifs with hskip hrej hbetter hfull
    · exact ih _ _ _ hrest hbest
    · exact ih _ _ _ hrest hbest
    · exact ⟨matchLen_le _ _ _ _, .inr (hmatch hskip)⟩
    · exact ih _ _ _ hrest ⟨matchLen_le _ _ _ _, .inr (hmatch hskip)⟩
    · exact ih _ _ _ hrest hbest

/-- The result of the search: nothing, or a match of 3 to 514 bytes inside the
band. -/
theorem longestMatch_spec (band : Bytes) (pos : Nat) (table : Table)
    (h : (longestMatch band pos table).1 ≠ 0) :
    3 ≤ (longestMatch band pos table).1 ∧ (longestMatch band pos table).1 ≤ 514 ∧
      pos + (longestMatch band pos table).1 ≤ band.length ∧
      IsMatch band pos table.entries (longestMatch band pos table).1
        (longestMatch band pos table).2 := by
  unfold longestMatch at h ⊢
  generalize hmax : (if band.length - pos > 514 then 514 else band.length - pos) = max at h ⊢
  have hmax514 : max ≤ 514 ∧ max ≤ band.length - pos := by
    split_ifs at hmax <;> omega
  dsimp only at h ⊢
  split_ifs at h ⊢ with hsmall hbest
  · exact absurd rfl h
  · obtain ⟨hle, hm⟩ := longestMatchLoop_isMatch band pos max table.entries table.entries 0 0 0
      rfl ⟨Nat.zero_le _, .inl rfl⟩
    exact ⟨hbest, by omega, by omega, hm.resolve_left (by omega)⟩
  · exact absurd rfl h

/-! ## The greedy parse as tokens -/

/-- A run of literals, cut into tokens of at most 128 bytes. -/
def literalToks (run : Bytes) : List Tok :=
  if h : run = [] then []
  else
    .literal (run.take 128) (by rw [List.length_take]; have := List.length_pos_of_ne_nil h; omega)
      (by rw [List.length_take]; omega) :: literalToks (run.drop 128)
termination_by run.length
decreasing_by
  have := List.length_pos_of_ne_nil h
  rw [List.length_drop]
  omega

/-- The bytes of the band from `a` up to `b`. -/
def segment (band : Bytes) (a b : Nat) : Bytes := (band.drop a).take (b - a)

/-- The tokens from `pos` on, and where the last literals start. -/
def greedyToks (band : Bytes) (table : Table) (pos litStart : Nat) : List Tok × Nat :=
  if pos < band.length then
    if h : (longestMatch band pos table).1 = 0 then greedyToks band table (pos + 1) litStart
    else
      let m := longestMatch band pos table
      have hm := longestMatch_spec band pos table h
      let rest := greedyToks band table (pos + m.1) (pos + m.1)
      (literalToks (segment band litStart pos) ++
        .copy m.1 m.2 hm.1 hm.2.1 (table.length_eq ▸ hm.2.2.2.slot) :: rest.1, rest.2)
  else ([], litStart)
termination_by band.length - pos

theorem length_segment {band : Bytes} {a b : Nat} (h : b ≤ band.length) :
    (segment band a b).length = b - a := by
  rw [segment, List.length_take, List.length_drop]
  omega

theorem take_append_segment {band : Bytes} {a b : Nat} (h : a ≤ b) :
    band.take a ++ segment band a b = band.take b := by
  rw [segment, ← List.take_add, Nat.add_sub_cancel' h]

/-- The literals in front of a match extend the prefix produced so far. -/
theorem expand_literalToks (table : Table) (run out : Bytes) :
    Lz77.ValidFrom out (toLz table (literalToks run)) ∧
      Lz77.expand out (toLz table (literalToks run)) = out ++ run := by
  fun_induction literalToks run generalizing out with
  | case1 => simp [toLz, Lz77.ValidFrom]
  | case2 run h ih =>
    obtain ⟨hv, he⟩ := ih (out ++ run.take 128)
    refine ⟨⟨trivial, hv⟩, ?_⟩
    rw [toLz_cons, Lz77.expand_cons]
    change Lz77.expand (out ++ run.take 128) _ = _
    rw [he, List.append_assoc, List.take_append_drop]

/-- A match extends the prefix produced so far. -/
theorem copyBack_isMatch {band : Bytes} {pos m i : Nat} {table : Table}
    (hmatch : IsMatch band pos table.entries m i) (hlen : pos + m ≤ band.length) :
    Lz77.copyBack (table.dist i) m (band.take pos) = band.take (pos + m) :=
  Lz77.copyBack_take band (table.dist i) m pos hmatch.dist_pos hmatch.dist_le hlen
    fun k hk => (hmatch.same k hk).symm

/-- The greedy parse produces the band up to where its last literals start. -/
theorem expand_greedyToks (band : Bytes) (table : Table) (pos litStart : Nat)
    (hlit : litStart ≤ pos) (hpos : pos ≤ band.length) :
    let g := greedyToks band table pos litStart
    Lz77.ValidFrom (band.take litStart) (toLz table g.1) ∧
      Lz77.expand (band.take litStart) (toLz table g.1) = band.take g.2 ∧
      litStart ≤ g.2 ∧ g.2 ≤ band.length := by
  fun_induction greedyToks band table pos litStart with
  | case1 pos litStart hlt h ih => exact ih (by omega) (by omega)
  | case2 pos litStart hlt h m hm rest ih =>
    obtain ⟨hv, he, (hle : pos + m.1 ≤ rest.2), hlen⟩ := ih (le_refl _) hm.2.2.1
    obtain ⟨hlv, hle'⟩ := expand_literalToks table (segment band litStart pos) (band.take litStart)
    rw [take_append_segment hlit] at hle'
    have hcopy := copyBack_isMatch hm.2.2.2 hm.2.2.1
    have hdist : 0 < table.dist m.2 ∧ table.dist m.2 ≤ (band.take pos).length := by
      rw [List.length_take_of_le hpos]
      exact ⟨hm.2.2.2.dist_pos, hm.2.2.2.dist_le⟩
    refine ⟨?_, ?_, by omega, hlen⟩
    · rw [toLz_append, Lz77.validFrom_append, hle', toLz_cons]
      exact ⟨hlv, hdist, by rw [Tok.toLz, Lz77.Token.apply, hcopy]; exact hv⟩
    · rw [toLz_append, Lz77.expand_append, hle', toLz_cons, Lz77.expand_cons, Tok.toLz,
        Lz77.Token.apply, hcopy, he]
  | case3 pos litStart hge =>
    exact ⟨trivial, rfl, le_refl _, by omega⟩

/-! ## The size of the tokens -/

/-- A literal run costs its bytes and one count byte for each 128 of them. -/
theorem size_literalToks (run : Bytes) :
    ((literalToks run).flatMap Tok.bytes).length = run.length + (run.length + 127) / 128 := by
  fun_induction literalToks run with
  | case1 => rfl
  | case2 run h ih =>
    have hpos := List.length_pos_of_ne_nil h
    rw [List.flatMap_cons, List.length_append, ih, Tok.bytes, length_literalBytes,
      List.length_take, List.length_drop]
    omega

/-- A match costs two bytes and covers at least three, so the tokens never
cost more than one literal run over all bytes would. -/
theorem size_greedyToks (band : Bytes) (table : Table) (pos litStart : Nat)
    (hlit : litStart ≤ pos) (hpos : pos ≤ band.length) :
    let g := greedyToks band table pos litStart
    ((g.1 ++ literalToks (band.drop g.2)).flatMap Tok.bytes).length
      ≤ (band.length - litStart) + (band.length - litStart + 127) / 128 := by
  fun_induction greedyToks band table pos litStart with
  | case1 pos litStart hlt h ih => exact ih (by omega) (by omega)
  | case2 pos litStart hlt h m hm rest ih =>
    have hrest : ((rest.1 ++ literalToks (band.drop rest.2)).flatMap Tok.bytes).length
        ≤ (band.length - (pos + m.1)) + (band.length - (pos + m.1) + 127) / 128 :=
      ih (le_refl _) hm.2.2.1
    have hseg : (segment band litStart pos).length = pos - litStart := length_segment hpos
    have hm3 : 3 ≤ m.1 := hm.1
    have hmlen : pos + m.1 ≤ band.length := hm.2.2.1
    simp only [List.append_assoc, List.cons_append, List.flatMap_append, List.flatMap_cons,
      List.length_append, size_literalToks, hseg, Tok.bytes, length_matchBytes] at hrest ⊢
    omega
  | case3 pos litStart hge =>
    simp only [List.nil_append, size_literalToks, List.length_drop]
    omega

/-! ## What the encoder writes -/

theorem put_writes {outCap : Nat} {out : Bytes} (chunk : Bytes) (hout : out.length ≤ outCap) :
    Writes outCap out chunk id (put outCap out chunk) :=
  Writes.of_check hout

/-- One round of the literal loop takes up to 128 bytes off the segment. -/
theorem literalToks_segment (band : Bytes) {litStart pos : Nat} (hlt : litStart < pos)
    (hpos : pos ≤ band.length) :
    (literalToks (segment band litStart pos)).flatMap Tok.bytes =
      literalBytes ((band.drop litStart).take (min 128 (pos - litStart))) ++
        (literalToks (segment band (litStart + min 128 (pos - litStart)) pos)).flatMap
          Tok.bytes := by
  have hne : segment band litStart pos ≠ [] := by
    have := length_segment (a := litStart) hpos
    exact List.ne_nil_of_length_pos (by omega)
  have hdrop : (segment band litStart pos).drop 128 =
      segment band (litStart + min 128 (pos - litStart)) pos := by
    rw [segment, segment, List.drop_take, List.drop_drop]
    rcases Nat.le_total 128 (pos - litStart) with h | h
    · rw [Nat.min_eq_left h, Nat.sub_add_eq]
    · rw [Nat.min_eq_right h, Nat.sub_eq_zero_of_le h,
        show pos - (litStart + (pos - litStart)) = 0 by omega, List.take_zero, List.take_zero]
  rw [literalToks, dif_neg hne, List.flatMap_cons, hdrop, Tok.bytes, segment, List.take_take]

/-- The literal loop writes the literals of its segment. -/
theorem putLiterals_writes {outCap : Nat} {band out : Bytes} {litStart pos : Nat}
    (hpos : pos ≤ band.length) (hout : out.length ≤ outCap) :
    Writes outCap out ((literalToks (segment band litStart pos)).flatMap Tok.bytes) id
      (putLiterals outCap band out litStart pos) := by
  induction hn : pos - litStart using Nat.strongRecOn generalizing out litStart with
  | ind n ih =>
    subst hn
    rw [putLiterals]
    by_cases hlt : litStart < pos
    · have hcount : (if pos - litStart > 128 then 128 else pos - litStart)
          = min 128 (pos - litStart) := by
        split_ifs <;> omega
      rw [if_pos hlt, hcount, literalToks_segment band hlt hpos]
      refine (put_writes _ hout).bind fun hfits => ih _ ?_ hfits rfl
      omega
    · rw [if_neg hlt]
      have hnil : segment band litStart pos = [] := by
        rw [segment, Nat.sub_eq_zero_of_le (by omega), List.take_zero]
      rw [hnil, literalToks, dif_pos rfl]
      exact Writes.nil id hout

/-- The main loop writes the tokens of the greedy parse. -/
theorem putTokens_writes {outCap : Nat} {band : Bytes} {table : Table} {out : Bytes}
    {pos litStart : Nat} (hpos : pos ≤ band.length) (hout : out.length ≤ outCap) :
    Writes outCap out ((greedyToks band table pos litStart).1.flatMap Tok.bytes)
      (fun out => (out, (greedyToks band table pos litStart).2))
      (putTokens outCap band table out pos litStart) := by
  induction hn : band.length - pos using Nat.strongRecOn generalizing out pos litStart with
  | ind n ih =>
    subst hn
    rw [putTokens, greedyToks]
    by_cases hlt : pos < band.length
    · rw [if_pos hlt, if_pos hlt]
      dsimp only
      split_ifs with hm
      · exact ih _ (by omega) (by omega) hout rfl
      · obtain ⟨hm3, -, hmlen, -⟩ := longestMatch_spec band pos table hm
        dsimp only
        rw [List.flatMap_append, List.flatMap_cons]
        refine (putLiterals_writes hpos hout).bind fun hfits => ?_
        refine (put_writes _ hfits).bind fun hfits => ?_
        exact ih _ (by omega) hmlen hfits rfl
    · rw [if_neg hlt, if_neg hlt]
      exact Writes.nil _ hout

theorem rawPrefix_bounds (band : Bytes) (table : Table) (room raw : Nat) :
    raw ≤ rawPrefix band table room raw ∧ rawPrefix band table room raw ≤ raw + room := by
  induction room generalizing raw with
  | zero => exact ⟨le_refl _, le_refl _⟩
  | succ room ih =>
    rw [rawPrefix]
    obtain ⟨hlo, hhi⟩ := ih (raw + 1)
    split_ifs <;> omega

/-- The raw prefix has 64 to 128 bytes, or the whole band when that is
shorter. -/
theorem rawLength_bounds (band : Bytes) (table : Table) :
    min band.length 64 ≤ rawLength band table ∧ rawLength band table ≤ min band.length 128 := by
  rw [rawLength]
  obtain ⟨hlo, hhi⟩ := rawPrefix_bounds band table
    ((if band.length < 128 then band.length else 128) -
      if band.length < 64 then band.length else 64)
    (if band.length < 64 then band.length else 64)
  split_ifs at hlo hhi ⊢ <;> omega

/-- The payload of a band. -/
def encodedPayload (band : Bytes) (table : Table) : Payload :=
  let raw := rawLength band table
  let g := greedyToks band table raw raw
  ⟨true, table, band.take raw,
    by rw [List.length_take]; have := (rawLength_bounds band table).2; omega,
    g.1 ++ literalToks (band.drop g.2)⟩

/-- What the parse says about the payload of a band. -/
theorem encodedPayload_spec (band : Bytes) (table : Table) :
    (encodedPayload band table).Valid ∧ (encodedPayload band table).output = band ∧
      (encodedPayload band table).bytes.length ≤ codec11EncodeBound band.length := by
  have hraw := (rawLength_bounds band table).2
  have hrawlen : (encodedPayload band table).raw.length = rawLength band table :=
    List.length_take_of_le (by omega)
  obtain ⟨hv, he, hle, hlen⟩ :=
    expand_greedyToks band table _ _ (le_refl (rawLength band table)) (by omega)
  obtain ⟨hlv, hle'⟩ := expand_literalToks table
    (band.drop (greedyToks band table (rawLength band table) (rawLength band table)).2)
    (band.take (greedyToks band table (rawLength band table) (rawLength band table)).2)
  have hsize := size_greedyToks band table _ _ (le_refl (rawLength band table)) (by omega)
  refine ⟨?_, ?_, ?_⟩
  · rw [Payload.Valid, encodedPayload]
    dsimp only
    rw [toLz_append, Lz77.validFrom_append, he]
    exact ⟨hv, hlv⟩
  · rw [Payload.output, encodedPayload]
    dsimp only
    rw [toLz_append, Lz77.expand_append, he, hle', List.take_append_drop]
  · rw [Payload.length_bytes, hrawlen, codec11EncodeBound]
    change 136 + rawLength band table + (((greedyToks band table _ _).1 ++
      literalToks (band.drop (greedyToks band table _ _).2)).flatMap Tok.bytes).length + 4 ≤ _
    omega

/-- The header and the raw bytes as the encoder writes them. -/
theorem encodedPayload_front (band : Bytes) (table : Table) :
    (encodedPayload band table).header ++ (encodedPayload band table).raw =
      codec11Header (rawLength band table) table ++ band.take (rawLength band table) := by
  have hraw := (rawLength_bounds band table).2
  rw [Payload.header, codec11Header]
  simp only [encodedPayload, word32, if_true, List.length_take_of_le
    (show rawLength band table ≤ band.length by omega)]
  rfl

/-- The encoder writes the payload of its band. -/
theorem encodePayload_writes (band : Bytes) (table : Table) (outCap : Nat) :
    Writes outCap [] (encodedPayload band table).bytes id (encodePayload band table outCap) := by
  have hraw := (rawLength_bounds band table).2
  have hg := (expand_greedyToks band table _ _ (le_refl (rawLength band table)) (by omega)).2.2.2
  have hlast : band.drop (greedyToks band table (rawLength band table) (rawLength band table)).2 =
      segment band (greedyToks band table (rawLength band table) (rawLength band table)).2
        band.length := by
    rw [segment, List.take_of_length_le (by rw [List.length_drop])]
  have hbody : (encodedPayload band table).body =
      codec11Header (rawLength band table) table ++ band.take (rawLength band table) ++
        ((greedyToks band table (rawLength band table) (rawLength band table)).1.flatMap Tok.bytes ++
          (literalToks (segment band (greedyToks band table (rawLength band table)
            (rawLength band table)).2 band.length)).flatMap Tok.bytes) := by
    rw [Payload.body, encodedPayload_front, ← List.flatMap_append, ← hlast]
    rfl
  rw [Payload.bytes, ← checksum_eq_ofNat, hbody, List.append_assoc,
    List.append_assoc ((greedyToks _ _ _ _).1.flatMap Tok.bytes), encodePayload]
  have hnil : ([] : Bytes).length ≤ outCap := Nat.zero_le _
  refine (put_writes _ hnil).bind fun hfits => ?_
  refine (putTokens_writes (by omega) hfits).bind fun hfits => ?_
  refine (putLiterals_writes (le_refl _) hfits).bind fun hfits => ?_
  simp only [id, List.nil_append, List.append_assoc] at hfits ⊢
  exact put_writes _ hfits

/-- With enough room the encoder returns `OK` and the payload of its band. -/
theorem codec11Encode_eq {band : Bytes} {table : Table} {outCap : Nat}
    (hcap : (encodedPayload band table).bytes.length ≤ outCap) :
    codec11Encode band table outCap = ⟨OK, (encodedPayload band table).bytes⟩ := by
  have hok := (encodePayload_writes band table outCap).eq_ok (by simpa using hcap)
  rw [codec11Encode, hok]
  rfl

/-! ## The round trip -/

/-- What was encoded with the room of the size bound decodes to the band, and
the decoded header is the one that was written. -/
theorem codec11Decode_encode (band : Bytes) (table : Table) (outCap decodeCap : Nat)
    (hcap : codec11EncodeBound band.length ≤ outCap) (hdecode : band.length ≤ decodeCap) :
    (codec11Encode band table outCap).rc = OK ∧
      let r := codec11Decode (codec11Encode band table outCap).out decodeCap
      r.rc = OK ∧ r.out = band ∧ r.out.length = band.length ∧ r.info.littleEndian = true ∧
        r.info.table = table ∧ min band.length 64 ≤ r.info.rawLen.toNat ∧
        r.info.rawLen.toNat ≤ min band.length 128 := by
  obtain ⟨hvalid, hout, hlen⟩ := encodedPayload_spec band table
  obtain ⟨hlo, hhi⟩ := rawLength_bounds band table
  have hrawlen : (encodedPayload band table).raw.length = rawLength band table :=
    List.length_take_of_le (by omega)
  obtain ⟨hrc, hdec, hinfo⟩ := codec11Decode_bytes (encodedPayload band table) decodeCap hvalid
    (by rw [hout]; exact hdecode)
  rw [codec11Encode_eq (hlen.trans hcap)]
  refine ⟨rfl, hrc, hdec.trans hout, by rw [hdec, hout], hinfo.littleEndian, hinfo.table, ?_, ?_⟩
  · rw [hinfo.rawLen, hrawlen]
    exact hlo
  · rw [hinfo.rawLen, hrawlen]
    exact hhi

/-- Distances 3, 2, 3 again, and one that is longer than a band. -/
def fewDistances : Table := ⟨[3, 2, 3, 40000] ++ List.replicate 60 0, rfl⟩

/-- Three bytes between two repeats. -/
def twoRepeats : Bytes := List.replicate 80 7 ++ [1, 2, 3] ++ List.replicate 200 7

/-- The payload of two repeats has a match token on both sides of a literal
token. -/
theorem codec11Decode_encode_twoRepeats :
    (codec11Encode twoRepeats fewDistances 700).rc = OK ∧
      let r := codec11Decode (codec11Encode twoRepeats fewDistances 700).out 283
      r.rc = OK ∧ r.out = twoRepeats ∧ r.out.length = 283 ∧ r.info.littleEndian = true ∧
        r.info.table = fewDistances ∧ 64 ≤ r.info.rawLen.toNat ∧ r.info.rawLen.toNat ≤ 128 := by
  have hlen : twoRepeats.length = 283 := by
    rw [twoRepeats, List.length_append, List.length_append, List.length_replicate,
      List.length_replicate]
    rfl
  have hcap : codec11EncodeBound twoRepeats.length ≤ 700 := by
    rw [hlen]
    decide
  have hspec := codec11Decode_encode twoRepeats fewDistances 700 283 hcap (Nat.le_of_eq hlen)
  rwa [hlen] at hspec

end Airbridge.Qpdl
