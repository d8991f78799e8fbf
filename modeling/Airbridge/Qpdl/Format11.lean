import Airbridge.Qpdl.Codec11Encode

/-!
# The 0x11 format as a grammar

What a payload is, independent of the two programs that read and write it: a
token is a literal run or a table match, a `Payload` is a header, raw bytes
and tokens, and its output is the LZ77 expansion of the tokens over the raw
bytes.  The first half of the module connects tokens to their bytes and says
what one run of the decoder's token loop reads.  The second half does the same
for the header.
-/

namespace Airbridge.Qpdl

/-! ## Tokens -/

/-- A token of the stream, within the limits of its two encodings. -/
inductive Tok where
  | literal (run : Bytes) (pos : 0 < run.length) (le : run.length ≤ 128)
  | copy (length index : Nat) (lo : 3 ≤ length) (hi : length ≤ 514) (slot : index < 64)

namespace Tok

def bytes : Tok → Bytes
  | literal run _ _ => literalBytes run
  | copy length index _ _ _ => matchBytes length index

/-- The meaning of a token under a table. -/
def toLz (table : Table) : Tok → Lz77.Token UInt8
  | literal run _ _ => .literal run
  | copy length index _ _ _ => .copy length (table.dist index)

/-- The statistics of a token. -/
def count (info : Codec11Info) : Tok → Codec11Info
  | literal run _ _ => info.countLiteral run.length
  | copy length index _ _ _ => info.countMatch length index

end Tok

/-- The meaning of a token stream under a table. -/
def toLz (table : Table) (toks : List Tok) : List (Lz77.Token UInt8) := toks.map (Tok.toLz table)

@[simp] theorem toLz_cons (table : Table) (t : Tok) (ts : List Tok) :
    toLz table (t :: ts) = t.toLz table :: toLz table ts := rfl

@[simp] theorem toLz_append (table : Table) (ts us : List Tok) :
    toLz table (ts ++ us) = toLz table ts ++ toLz table us := by
  simp [toLz]

/-! ## The two bytes of a match -/

/-- The two bytes of a match as numbers. -/
theorem matchBytes_eq {m index : Nat} (hindex : index < 64) :
    matchBytes m index =
      [UInt8.ofNat (128 + (m - 3) % 128), UInt8.ofNat ((m - 3) / 128 * 64 + index)] := by
  have hlow : (m - 3) &&& 0x7F = (m - 3) % 128 := Nat.and_two_pow_sub_one_eq_mod (m - 3) 7
  have hfirst : 0x80 ||| (m - 3) % 128 = 128 + (m - 3) % 128 := by
    have := Nat.shiftLeft_add_eq_or_of_lt (i := 7) (b := (m - 3) % 128) (by omega) 1
    simpa using this.symm
  have hsecond : ((m - 3) >>> 7) <<< 6 ||| index = (m - 3) / 128 * 64 + index := by
    have := Nat.shiftLeft_add_eq_or_of_lt (i := 6) (b := index) (by omega) ((m - 3) >>> 7)
    rw [← this, Nat.shiftLeft_eq, Nat.shiftRight_eq_div_pow]
  rw [matchBytes, hlow, hfirst, hsecond]

@[simp] theorem length_matchBytes (m index : Nat) : (matchBytes m index).length = 2 := rfl

@[simp] theorem length_literalBytes (run : Bytes) :
    (literalBytes run).length = run.length + 1 := rfl

/-- Two bytes with the top bit set are the match they decode to. -/
theorem matchBytes_decoded {b1 b2 : UInt8} (h : 128 ≤ b1.toNat) :
    matchBytes (b1.toNat % 128 + b2.toNat / 64 * 128 + 3) (b2.toNat % 64) = [b1, b2] := by
  have h1 := b1.toNat_lt
  have h2 := b2.toNat_lt
  rw [matchBytes_eq (by omega)]
  have hfirst : 128 + (b1.toNat % 128 + b2.toNat / 64 * 128 + 3 - 3) % 128 = b1.toNat := by omega
  have hsecond : (b1.toNat % 128 + b2.toNat / 64 * 128 + 3 - 3) / 128 * 64 + b2.toNat % 64
      = b2.toNat := by omega
  rw [hfirst, hsecond, UInt8.ofNat_toNat, UInt8.ofNat_toNat]

/-- A count byte and the bytes it counts are a literal. -/
theorem literalBytes_decoded {b1 : UInt8} {s : Bytes}
    (hlen : b1.toNat + 1 ≤ s.length) :
    literalBytes (s.take (b1.toNat + 1)) = b1 :: s.take (b1.toNat + 1) := by
  rw [literalBytes, List.length_take_of_le hlen, Nat.add_sub_cancel]
  simp

/-! ## One step of the decoder -/

theorem decodeTokens_literal (outCap : Nat) (run s out : Bytes) (info : Codec11Info)
    (hpos : 0 < run.length) (hle : run.length ≤ 128) :
    decodeTokens outCap (literalBytes run ++ s) out info =
      if outCap - out.length < run.length then
        ⟨EOVERFLOW, out, info.countLiteral run.length⟩
      else decodeTokens outCap s (out ++ run) (info.countLiteral run.length) := by
  have hb : (run.length - 1).toUInt8.toNat = run.length - 1 := by
    rw [Nat.toUInt8, UInt8.toNat_ofNat']
    omega
  have hcount : run.length - 1 + 1 = run.length := by omega
  have hlit : ¬(run.length - 1).toUInt8 &&& 0x80 ≠ 0 := by
    rw [and_0x80_ne_zero, hb]
    omega
  rw [literalBytes, List.cons_append, decodeTokens.eq_def]
  simp only [if_neg hlit, hb, hcount]
  rw [if_neg (by simp), List.drop_left, List.take_left]

theorem decodeTokens_copy (outCap m index : Nat) (s out : Bytes) (info : Codec11Info)
    (hlo : 3 ≤ m) (hhi : m ≤ 514) (hslot : index < 64) :
    decodeTokens outCap (matchBytes m index ++ s) out info =
      if info.table.dist index = 0 ∨ info.table.dist index > out.length then
        ⟨EOFFSET, out, info.countMatch m index⟩
      else if outCap - out.length < m then ⟨EOVERFLOW, out, info.countMatch m index⟩
      else decodeTokens outCap s (Lz77.copyBack (info.table.dist index) m out)
        (info.countMatch m index) := by
  have hb1 : (UInt8.ofNat (128 + (m - 3) % 128)).toNat = 128 + (m - 3) % 128 := by
    rw [UInt8.toNat_ofNat']
    omega
  have hb2 : (UInt8.ofNat ((m - 3) / 128 * 64 + index)).toNat = (m - 3) / 128 * 64 + index := by
    rw [UInt8.toNat_ofNat']
    omega
  have hlength : (128 + (m - 3) % 128) % 128 + ((m - 3) / 128 * 64 + index) / 64 * 128 + 3 = m := by
    omega
  have hindex : ((m - 3) / 128 * 64 + index) % 64 = index := by omega
  have hmatch : UInt8.ofNat (128 + (m - 3) % 128) &&& 0x80 ≠ 0 := by
    rw [and_0x80_ne_zero, hb1]
    omega
  rw [matchBytes_eq hslot, List.cons_append, List.cons_append, List.nil_append,
    decodeTokens.eq_def]
  simp only [if_pos hmatch, toNat_and_0x7F, toNat_and_0xC0, toNat_and_0x3F, hb1, hb2, hlength,
    hindex]

@[simp] theorem Tok.count_table (info : Codec11Info) (t : Tok) :
    (t.count info).table = info.table := by
  cases t <;> rfl

@[simp] theorem Tok.count_checksumComputed (info : Codec11Info) (t : Tok) :
    (t.count info).checksumComputed = info.checksumComputed := by
  cases t <;> rfl

@[simp] theorem Tok.count_checksumStored (info : Codec11Info) (t : Tok) :
    (t.count info).checksumStored = info.checksumStored := by
  cases t <;> rfl

/-- The decoder reads a token that is valid and fits. -/
theorem decodeTokens_tok (outCap : Nat) (t : Tok) (s out : Bytes) (info : Codec11Info)
    (hvalid : (t.toLz info.table).Valid out)
    (hfits : ((t.toLz info.table).apply out).length ≤ outCap) :
    decodeTokens outCap (t.bytes ++ s) out info =
      decodeTokens outCap s ((t.toLz info.table).apply out) (t.count info) := by
  cases t with
  | literal run hpos hle =>
    have hcap : out.length + run.length ≤ outCap := by
      simpa [Tok.toLz, Lz77.Token.apply] using hfits
    rw [Tok.bytes, decodeTokens_literal outCap run s out info hpos hle, if_neg (by omega)]
    rfl
  | copy m index hlo hhi hslot =>
    have hcap : out.length + m ≤ outCap := by
      simpa [Tok.toLz, Lz77.Token.apply] using hfits
    obtain ⟨hd, hle⟩ : 0 < info.table.dist index ∧ info.table.dist index ≤ out.length := hvalid
    rw [Tok.bytes, decodeTokens_copy outCap m index s out info hlo hhi hslot, if_neg (by omega),
      if_neg (by omega)]
    rfl

/-- The decoder reads a valid token stream whose output fits. -/
theorem decodeTokens_toks (outCap : Nat) (toks : List Tok) (s out : Bytes) (info : Codec11Info)
    (hvalid : Lz77.ValidFrom out (toLz info.table toks))
    (hfits : (Lz77.expand out (toLz info.table toks)).length ≤ outCap) :
    decodeTokens outCap (toks.flatMap Tok.bytes ++ s) out info =
      decodeTokens outCap s (Lz77.expand out (toLz info.table toks))
        (toks.foldl Tok.count info) := by
  induction toks generalizing out info with
  | nil => rfl
  | cons t toks ih =>
    obtain ⟨ht, hrest⟩ := hvalid
    have hstep : ((t.toLz info.table).apply out).length ≤ outCap :=
      (Lz77.length_le_expand _ (toLz info.table toks)).trans hfits
    have hih := ih ((t.toLz info.table).apply out) (t.count info)
      (by rw [Tok.count_table]; exact hrest) (by rw [Tok.count_table]; exact hfits)
    rw [Tok.count_table] at hih
    rw [List.flatMap_cons, List.append_assoc, decodeTokens_tok outCap t _ out info ht hstep, hih]
    rfl

/-! ## What the decoder has read when it stops -/

/-- The codes the token loop ends with. -/
def tokenCodes : List Int := [OK, ETRUNCATED, EOFFSET, EOVERFLOW]

/-- The loop has read `toks` and stopped in front of `rest`. -/
structure Stopped (outCap : Nat) (s out : Bytes) (info : Codec11Info) (r : DecodeResult)
    (toks : List Tok) (rest : Bytes) : Prop where
  split : s = toks.flatMap Tok.bytes ++ rest
  valid : Lz77.ValidFrom out (toLz info.table toks)
  out_eq : r.out = Lz77.expand out (toLz info.table toks)
  fits : r.out.length ≤ outCap
  code : r.rc ∈ tokenCodes
  all_read : r.rc = OK → rest = []
  computed : r.info.checksumComputed = info.checksumComputed
  stored : r.info.checksumStored = info.checksumStored

/-- A loop that stops at once has read nothing. -/
theorem Stopped.here {outCap : Nat} {s out : Bytes} {info : Codec11Info} {r : DecodeResult}
    (hout : r.out = out) (hfits : out.length ≤ outCap) (hcode : r.rc ∈ tokenCodes)
    (hall : r.rc = OK → s = []) (hc : r.info.checksumComputed = info.checksumComputed)
    (hs : r.info.checksumStored = info.checksumStored) : Stopped outCap s out info r [] s where
  split := rfl
  valid := trivial
  out_eq := hout
  fits := hout ▸ hfits
  code := hcode
  all_read := hall
  computed := hc
  stored := hs

/-- A loop that reads a token and then stops. -/
theorem Stopped.cons {outCap : Nat} {s out : Bytes} {info : Codec11Info} {r : DecodeResult}
    {t : Tok} {toks : List Tok} {rest : Bytes} (hvalid : (t.toLz info.table).Valid out)
    (h : Stopped outCap s ((t.toLz info.table).apply out) (t.count info) r toks rest) :
    Stopped outCap (t.bytes ++ s) out info r (t :: toks) rest where
  split := by rw [List.flatMap_cons, List.append_assoc, ← h.split]
  valid := ⟨hvalid, Tok.count_table info t ▸ h.valid⟩
  out_eq := by simpa using h.out_eq
  fits := h.fits
  code := h.code
  all_read := h.all_read
  computed := by simpa using h.computed
  stored := by simpa using h.stored

/-- Whatever the stream, the loop reads a valid token list off its front. -/
theorem decodeTokens_stopped (outCap : Nat) (s out : Bytes) (info : Codec11Info)
    (hout : out.length ≤ outCap) :
    ∃ toks rest, Stopped outCap s out info (decodeTokens outCap s out info) toks rest := by
  fun_induction decodeTokens outCap s out info with
  | case1 out info => exact ⟨[], [], .here rfl hout (by simp [tokenCodes]) (fun _ => rfl) rfl rfl⟩
  | case2 out info b1 hb =>
    exact ⟨[], [b1], .here rfl hout (by simp [tokenCodes]) (by simp) rfl rfl⟩
  | case3 out info b1 hb b2 s length index offset info' hbad =>
    exact ⟨[], b1 :: b2 :: s, .here rfl hout (by simp [tokenCodes]) (by simp) rfl rfl⟩
  | case4 out info b1 hb b2 s length index offset info' hgood hfull =>
    exact ⟨[], b1 :: b2 :: s, .here rfl hout (by simp [tokenCodes]) (by simp) rfl rfl⟩
  | case5 out info b1 hb b2 s length index offset info' hgood hroom ih =>
    have hb2 := b2.toNat_lt
    have hlen : length = b1.toNat % 128 + b2.toNat / 64 * 128 + 3 := by
      simp only [length, toNat_and_0x7F, toNat_and_0xC0]
    have hidx : index = b2.toNat % 64 := toNat_and_0x3F b2
    let t : Tok := .copy length index (by omega) (by omega) (by omega)
    have hbytes : t.bytes = [b1, b2] := by
      simp only [t, Tok.bytes, hlen, hidx]
      exact matchBytes_decoded ((and_0x80_ne_zero b1).mp hb)
    obtain ⟨toks, rest, hstop⟩ := ih (by rw [Lz77.length_copyBack]; omega)
    refine ⟨t :: toks, rest, ?_⟩
    have hvalid : (t.toLz info.table).Valid out := ⟨by omega, by omega⟩
    simpa [hbytes] using Stopped.cons (t := t) hvalid hstop
  | case6 out info b1 s hb count info' hshort =>
    exact ⟨[], b1 :: s, .here rfl hout (by simp [tokenCodes]) (by simp) rfl rfl⟩
  | case7 out info b1 s hb count info' hlong hfull =>
    exact ⟨[], b1 :: s, .here rfl hout (by simp [tokenCodes]) (by simp) rfl rfl⟩
  | case8 out info b1 s hb count info' hlong hroom ih =>
    rw [and_0x80_ne_zero] at hb
    have hlen : (s.take count).length = count := List.length_take_of_le (by omega)
    let t : Tok := .literal (s.take count) (by omega) (by omega)
    have hbytes : t.bytes ++ s.drop count = b1 :: s := by
      simp only [t, Tok.bytes]
      rw [literalBytes_decoded (by omega), List.cons_append, List.take_append_drop]
    obtain ⟨toks, rest, hstop⟩ := ih (by rw [List.length_append, hlen]; omega)
    refine ⟨t :: toks, rest, ?_⟩
    have hcount : t.count info = info' := by
      simp only [t, Tok.count, hlen, info']
    rw [← hbytes]
    exact Stopped.cons (t := t) trivial (hcount ▸ hstop)

/-! ## Payloads -/

/-- A word in the byte order of the header. -/
def word16 (le : Bool) (v : UInt16) : Bytes := if le then Word.le16 v else Word.be16 v

def word32 (le : Bool) (v : UInt32) : Bytes := if le then Word.le32 v else Word.be32 v

@[simp] theorem length_word16 (le : Bool) (v : UInt16) : (word16 le v).length = 2 := by
  cases le <;> rfl

@[simp] theorem length_word32 (le : Bool) (v : UInt32) : (word32 le v).length = 4 := by
  cases le <;> rfl

/-- A payload without its checksum. -/
structure Payload where
  littleEndian : Bool
  table : Table
  raw : Bytes
  raw_le : raw.length ≤ 128
  toks : List Tok

namespace Payload

/-- The magic, the raw length and the table, all in one byte order. -/
def header (p : Payload) : Bytes :=
  word32 p.littleEndian CODEC11_MAGIC ++ word32 p.littleEndian (UInt32.ofNat p.raw.length) ++
    p.table.entries.flatMap (word16 p.littleEndian)

/-- Everything in front of the checksum. -/
def body (p : Payload) : Bytes := p.header ++ p.raw ++ p.toks.flatMap Tok.bytes

/-- The whole payload: the checksum is the sum of the bytes before it, modulo
`2 ^ 32`, high byte first. -/
def bytes (p : Payload) : Bytes :=
  p.body ++ Word.be32 (UInt32.ofNat (p.body.map UInt8.toNat).sum)

/-- Every match starts inside the bytes produced so far. -/
def Valid (p : Payload) : Prop := Lz77.ValidFrom p.raw (toLz p.table p.toks)

/-- The raw bytes followed by the expansion of the tokens. -/
def output (p : Payload) : Bytes := Lz77.expand p.raw (toLz p.table p.toks)

@[simp] theorem length_header (p : Payload) : p.header.length = 136 := by
  simp [header, p.table.length_eq]

end Payload

theorem checksum_eq_ofNat (bytes : Bytes) :
    checksum bytes = UInt32.ofNat (bytes.map UInt8.toNat).sum := by
  apply UInt32.toNat_inj.mp
  rw [toNat_checksum, UInt32.toNat_ofNat']

/-! ## Reading a header -/

theorem rd16_append_right (a b : Bytes) (i : Nat) (le : Bool) :
    rd16 (a ++ b) (a.length + i) le = rd16 b i le := by
  simp only [rd16, Nat.add_assoc, byteAt_append_right]

theorem rd32_append_right (a b : Bytes) (i : Nat) (le : Bool) :
    rd32 (a ++ b) (a.length + i) le = rd32 b i le := by
  simp only [rd32, Nat.add_assoc, byteAt_append_right]

theorem rd16_word16 (le : Bool) (v : UInt16) (rest : Bytes) :
    rd16 (word16 le v ++ rest) 0 le = v := by
  cases le <;> simp [rd16, word16, byteAt, Word.le16, Word.be16, Word.ofLe16, Word.ofBe16_be16]

theorem rd32_word32 (le : Bool) (v : UInt32) (rest : Bytes) :
    rd32 (word32 le v ++ rest) 0 le = v := by
  cases le <;> simp [rd32, word32, byteAt, Word.le32, Word.be32, Word.ofLe32, Word.ofBe32_be32]

theorem rd16_words (le : Bool) (es : List UInt16) (rest : Bytes) (i : Nat) (hi : i < es.length) :
    rd16 (es.flatMap (word16 le) ++ rest) (2 * i) le = es[i] := by
  induction es generalizing i with
  | nil => simp at hi
  | cons e es ih =>
    rw [List.flatMap_cons, List.append_assoc]
    cases i with
    | zero => exact rd16_word16 le e _
    | succ i =>
      have hoff : 2 * (i + 1) = (word16 le e).length + 2 * i := by
        rw [length_word16]
        omega
      rw [hoff, rd16_append_right, ih i (by simpa using hi)]
      rfl

theorem rdTable_words (le : Bool) (table : Table) (a rest : Bytes) (ha : a.length = 8) :
    rdTable (a ++ (table.entries.flatMap (word16 le) ++ rest)) le = table := by
  have hentries : ((List.range 64).map fun i =>
      rd16 (a ++ (table.entries.flatMap (word16 le) ++ rest)) (8 + 2 * i) le) = table.entries := by
    apply List.ext_getElem
    · simp [table.length_eq]
    · intro i h1 h2
      rw [List.getElem_map, List.getElem_range, ← ha, rd16_append_right, rd16_words le _ _ _ h2]
  cases table
  simpa [rdTable] using hentries

/-- A word written again from its four bytes. -/
theorem word32_rd32 (le : Bool) (p : Bytes) (i : Nat) (h : i + 4 ≤ p.length) :
    word32 le (rd32 p i le) = (p.drop i).take 4 := by
  obtain ⟨b0, b1, b2, b3, rest, hp⟩ : ∃ b0 b1 b2 b3 rest, p.drop i = b0 :: b1 :: b2 :: b3 :: rest := by
    have hlen : 4 ≤ (p.drop i).length := by
      rw [List.length_drop]
      omega
    match hd : p.drop i, hlen with
    | b0 :: b1 :: b2 :: b3 :: rest, _ => exact ⟨b0, b1, b2, b3, rest, rfl⟩
  have hb : ∀ k, byteAt p (i + k) = byteAt (b0 :: b1 :: b2 :: b3 :: rest) k := fun k => by
    rw [← hp, byteAt_drop]
  have h0 : byteAt p i = b0 := hb 0
  cases le <;> simp only [rd32, word32, h0, hb, hp] <;>
    simp [byteAt, Word.be32_ofBe32, Word.le32_ofLe32]

theorem word16_rd16 (le : Bool) (p : Bytes) (i : Nat) (h : i + 2 ≤ p.length) :
    word16 le (rd16 p i le) = (p.drop i).take 2 := by
  obtain ⟨b0, b1, rest, hp⟩ : ∃ b0 b1 rest, p.drop i = b0 :: b1 :: rest := by
    have hlen : 2 ≤ (p.drop i).length := by
      rw [List.length_drop]
      omega
    match hd : p.drop i, hlen with
    | b0 :: b1 :: rest, _ => exact ⟨b0, b1, rest, rfl⟩
  have hb : ∀ k, byteAt p (i + k) = byteAt (b0 :: b1 :: rest) k := fun k => by
    rw [← hp, byteAt_drop]
  have h0 : byteAt p i = b0 := hb 0
  cases le <;> simp only [rd16, word16, h0, hb, hp] <;>
    simp [byteAt, Word.be16_ofBe16, Word.le16_ofLe16]

/-- The table written again from the bytes it was read from. -/
theorem flatMap_rdTable (le : Bool) (p : Bytes) (h : 136 ≤ p.length) :
    (rdTable p le).entries.flatMap (word16 le) = (p.drop 8).take 128 := by
  have haux : ∀ n, n ≤ 64 →
      ((List.range n).map fun i => rd16 p (8 + 2 * i) le).flatMap (word16 le)
        = (p.drop 8).take (2 * n) := by
    intro n
    induction n with
    | zero => simp
    | succ n ih =>
      intro hn
      rw [List.range_succ, List.map_append, List.flatMap_append, ih (by omega)]
      simp only [List.map_cons, List.map_nil, List.flatMap_cons, List.flatMap_nil,
        List.append_nil]
      rw [word16_rd16 le p _ (by omega), show 2 * (n + 1) = 2 * n + 2 by omega, List.take_add,
        List.drop_drop]
  exact haux 64 (le_refl _)

/-- A payload starts with the header that was read from it. -/
theorem header_of_read (le : Bool) (p : Bytes) (h : 136 ≤ p.length) :
    word32 le (rd32 p 0 le) ++ word32 le (rd32 p 4 le) ++
      (rdTable p le).entries.flatMap (word16 le) = p.take 136 := by
  rw [word32_rd32 le p 0 (by omega), word32_rd32 le p 4 (by omega), flatMap_rdTable le p h,
    List.drop_zero, ← List.take_add, show 136 = (4 + 4) + 128 by omega, ← List.take_add]

/-! ## The decoder accepts every payload of the format -/

/-- The record that describes an accepted payload. -/
structure Describes (info : Codec11Info) (p : Payload) : Prop where
  littleEndian : info.littleEndian = p.littleEndian
  rawLen : info.rawLen.toNat = p.raw.length
  table : info.table = p.table

theorem Tok.foldl_count_checksums (info : Codec11Info) (toks : List Tok) :
    (toks.foldl Tok.count info).checksumComputed = info.checksumComputed ∧
      (toks.foldl Tok.count info).checksumStored = info.checksumStored := by
  induction toks generalizing info with
  | nil => exact ⟨rfl, rfl⟩
  | cons t toks ih => simpa using ih (t.count info)

theorem Tok.foldl_count_describes {info : Codec11Info} {p : Payload} (h : Describes info p)
    (toks : List Tok) : Describes (toks.foldl Tok.count info) p := by
  induction toks generalizing info with
  | nil => exact h
  | cons t toks ih =>
    refine ih ?_
    cases t <;> exact ⟨h.littleEndian, h.rawLen, h.table⟩

end Airbridge.Qpdl
