import Airbridge.Qpdl.Format11

/-!
# The decoder accepts exactly the 0x11 format

Both directions of `codec11Decode`.  `codec11Decode_bytes` runs the decoder
on a payload of the grammar.  `codec11Decode_cases` goes the other way: it
reads off any byte string how far the decoder came, and with what.
`codec11Decode_format` puts the two together.
-/

namespace Airbridge.Qpdl

/-! ## Accepting a payload of the format -/

namespace Payload

theorem bytes_eq (p : Payload) :
    p.bytes = word32 p.littleEndian CODEC11_MAGIC ++
      (word32 p.littleEndian (UInt32.ofNat p.raw.length) ++
        (p.table.entries.flatMap (word16 p.littleEndian) ++
          (p.raw ++ (p.toks.flatMap Tok.bytes ++ Word.be32 (checksum p.body))))) := by
  simp [bytes, body, header, checksum_eq_ofNat]

theorem length_bytes (p : Payload) :
    p.bytes.length = 136 + p.raw.length + (p.toks.flatMap Tok.bytes).length + 4 := by
  rw [bytes, body, List.length_append, List.length_append, List.length_append, length_header,
    Word.length_be32]

theorem rd32_magic (p : Payload) : rd32 p.bytes 0 p.littleEndian = CODEC11_MAGIC := by
  rw [bytes_eq, rd32_word32]

theorem rd32_rawLen (p : Payload) :
    rd32 p.bytes 4 p.littleEndian = UInt32.ofNat p.raw.length := by
  have h4 : 4 = (word32 p.littleEndian CODEC11_MAGIC).length + 0 := by simp
  rw [bytes_eq, h4, rd32_append_right, rd32_word32]

theorem rdTable_bytes (p : Payload) : rdTable p.bytes p.littleEndian = p.table := by
  rw [bytes_eq, ← List.append_assoc]
  exact rdTable_words _ _ _ _ (by simp)

theorem take_bytes (p : Payload) : p.bytes.take (p.bytes.length - 4) = p.body := by
  have hlen : p.bytes.length - 4 = p.body.length := by simp [bytes]
  rw [hlen, bytes, List.take_left]

theorem rd32_checksum (p : Payload) :
    rd32 p.bytes (p.bytes.length - 4) false = checksum p.body := by
  have hlen : p.bytes.length - 4 = p.body.length + 0 := by simp [bytes]
  have hword : Word.be32 (checksum p.body) = word32 false (checksum p.body) ++ [] := by
    simp [word32]
  rw [hlen, bytes, ← checksum_eq_ofNat, rd32_append_right, hword, rd32_word32]

theorem drop_body (p : Payload) :
    p.body.drop (136 + p.raw.length) = p.toks.flatMap Tok.bytes := by
  rw [body]
  exact List.drop_left' (by rw [List.length_append, length_header])

theorem drop_take_bytes (p : Payload) : (p.bytes.drop 136).take p.raw.length = p.raw := by
  rw [bytes, body, List.append_assoc, List.append_assoc, List.drop_left' p.length_header,
    List.take_left]

theorem toNat_rawLen (p : Payload) : (UInt32.ofNat p.raw.length).toNat = p.raw.length := by
  have := p.raw_le
  rw [UInt32.toNat_ofNat']
  omega

end Payload

/-- A little-endian magic is not a big-endian one. -/
theorem rd32_true_ne_magic {p : Bytes} (h : rd32 p 0 false = CODEC11_MAGIC) :
    rd32 p 0 true ≠ CODEC11_MAGIC := by
  intro ht
  have hf := congrArg UInt32.toNat h
  have ht := congrArg UInt32.toNat ht
  simp only [rd32, if_true, Bool.false_eq_true, if_false, Word.toNat_ofBe32,
    Word.toNat_ofLe32] at hf ht
  have h0 := (byteAt p 0).toNat_lt
  have h1 := (byteAt p (0 + 1)).toNat_lt
  have h2 := (byteAt p (0 + 2)).toNat_lt
  have h3 := (byteAt p (0 + 3)).toNat_lt
  rw [show (CODEC11_MAGIC).toNat = 162254319 from rfl] at hf ht
  omega

/-- The decoder recognises the byte order of a payload. -/
theorem codec11Decode_eq_decodeBody {payload : Bytes} {le : Bool} (outCap : Nat)
    (hlen : 140 ≤ payload.length) (hmagic : rd32 payload 0 le = CODEC11_MAGIC) :
    codec11Decode payload outCap = decodeBody payload outCap le := by
  rw [codec11Decode, if_neg (by omega)]
  cases le with
  | true => rw [if_pos hmagic]
  | false => rw [if_neg (rd32_true_ne_magic hmagic), if_pos hmagic]

/-- The token loop of a valid payload. -/
theorem decodeStream_bytes (p : Payload) (outCap : Nat) (info : Codec11Info) (hvalid : p.Valid)
    (hfits : p.output.length ≤ outCap) (hinfo : Describes info p)
    (hsum : info.checksumComputed = info.checksumStored) :
    (decodeStream p.bytes outCap info).rc = OK ∧
      (decodeStream p.bytes outCap info).out = p.output ∧
      Describes (decodeStream p.bytes outCap info).info p := by
  simp only [decodeStream, hinfo.rawLen, p.take_bytes, p.drop_body, p.drop_take_bytes]
  generalize hinfo' : ({ info with streamLen := _ } : Codec11Info) = info'
  have htable : info'.table = p.table := by rw [← hinfo', ← hinfo.table]
  have hdesc : Describes info' p := by
    rw [← hinfo']
    exact ⟨hinfo.littleEndian, hinfo.rawLen, hinfo.table⟩
  have hsum' : info'.checksumComputed = info'.checksumStored := by rw [← hinfo', hsum]
  -- the loop reads all tokens and stops at the checksum
  have hrun := decodeTokens_toks outCap p.toks [] p.raw info' (by rw [htable]; exact hvalid)
    (by rw [htable]; exact hfits)
  rw [List.append_nil, htable, decodeTokens] at hrun
  obtain ⟨hc, hs⟩ := Tok.foldl_count_checksums info' p.toks
  rw [hrun, verifyChecksum, if_neg (by simp), if_pos (by rw [hc, hs, hsum'])]
  exact ⟨rfl, rfl, Tok.foldl_count_describes hdesc p.toks⟩

/-- A valid payload whose output fits decodes to its output. -/
theorem codec11Decode_bytes (p : Payload) (outCap : Nat) (hvalid : p.Valid)
    (hfits : p.output.length ≤ outCap) :
    (codec11Decode p.bytes outCap).rc = OK ∧ (codec11Decode p.bytes outCap).out = p.output ∧
      Describes (codec11Decode p.bytes outCap).info p := by
  have hlen := p.length_bytes
  have hraw := p.raw_le
  have hrawcap : p.raw.length ≤ outCap := (Lz77.length_le_expand p.raw _).trans hfits
  rw [codec11Decode_eq_decodeBody outCap (by omega) p.rd32_magic, decodeBody]
  simp only [p.rd32_rawLen, p.toNat_rawLen, p.rdTable_bytes, p.take_bytes, p.rd32_checksum]
  rw [if_neg (by omega), if_neg (by omega), if_neg (by omega)]
  exact decodeStream_bytes p outCap _ hvalid hfits ⟨rfl, p.toNat_rawLen, rfl⟩ rfl

/-! ## What was read of any payload -/

/-- The documented codes other than `OK`. -/
def decodeErrors : List Int := [ETRUNCATED, EMAGIC, ERAWLEN, EOFFSET, EOVERFLOW, ECHECKSUM]

/-- A decode that came past the raw bytes: it has read the tokens of `p` off
the payload and stopped in front of `rest`, which ends at the checksum. -/
structure Reached (payload : Bytes) (outCap : Nat) (r : DecodeResult) (p : Payload)
    (rest : Bytes) : Prop where
  split : payload.take (payload.length - 4) = p.body ++ rest
  valid : p.Valid
  out_eq : r.out = p.output
  fits : r.out.length ≤ outCap
  code : r.rc = OK ∨ r.rc ∈ decodeErrors
  accepted : r.rc = OK →
    rest = [] ∧ rd32 payload (payload.length - 4) false = checksum p.body

/-- The bytes of a payload behind the raw prefix. -/
private theorem take_split (payload : Bytes) (n : Nat) (h : 136 + n ≤ payload.length - 4) :
    payload.take (payload.length - 4) =
      payload.take 136 ++ (payload.drop 136).take n ++
        (payload.take (payload.length - 4)).drop (136 + n) := by
  have hhead : (payload.take (payload.length - 4)).take (136 + n) =
      payload.take 136 ++ (payload.drop 136).take n := by
    rw [List.take_take, Nat.min_eq_left h, List.take_add]
  rw [← hhead, List.take_append_drop]

/-- What the checksum comparison makes of the loop's result. -/
theorem verifyChecksum_cases (r : DecodeResult) (hcode : r.rc ∈ tokenCodes) :
    (verifyChecksum r).out = r.out ∧
      ((verifyChecksum r).rc = OK ∨ (verifyChecksum r).rc ∈ decodeErrors) ∧
      ((verifyChecksum r).rc = OK →
        r.rc = OK ∧ r.info.checksumComputed = r.info.checksumStored) := by
  rw [verifyChecksum]
  split_ifs with hne hsum
  · refine ⟨rfl, .inr ?_, fun h => absurd h hne⟩
    simp only [tokenCodes, List.mem_cons, List.not_mem_nil, or_false] at hcode
    simp only [decodeErrors, List.mem_cons, List.not_mem_nil, or_false]
    tauto
  · exact ⟨rfl, .inl rfl, fun _ => ⟨not_not.mp hne, hsum⟩⟩
  · exact ⟨rfl, .inr (by simp [decodeErrors]), fun h => absurd (show ECHECKSUM = OK from h)
      (by decide)⟩

/-- A decode that came past the header has read tokens. -/
theorem decodeStream_reached (payload : Bytes) (outCap : Nat) (info : Codec11Info)
    (hmagic : rd32 payload 0 info.littleEndian = CODEC11_MAGIC)
    (hrawLen : info.rawLen = rd32 payload 4 info.littleEndian)
    (htable : info.table = rdTable payload info.littleEndian)
    (hcomputed : info.checksumComputed = checksum (payload.take (payload.length - 4)))
    (hstored : info.checksumStored = rd32 payload (payload.length - 4) false)
    (h128 : info.rawLen.toNat ≤ 128) (hlong : 140 + info.rawLen.toNat ≤ payload.length)
    (hcap : info.rawLen.toNat ≤ outCap) :
    ∃ p rest, Reached payload outCap (decodeStream payload outCap info) p rest := by
  set raw := (payload.drop 136).take info.rawLen.toNat with hraw
  have hrawlen : raw.length = info.rawLen.toNat := by
    rw [hraw, List.length_take, List.length_drop]
    omega
  obtain ⟨toks, rest, hstop⟩ := decodeTokens_stopped outCap
    ((payload.take (payload.length - 4)).drop (136 + info.rawLen.toNat)) raw
    { info with streamLen :=
        ((payload.take (payload.length - 4)).drop (136 + info.rawLen.toNat)).length } (by omega)
  let p : Payload := ⟨info.littleEndian, info.table, raw, by omega, toks⟩
  have hheader : p.header = payload.take 136 := by
    have hword : UInt32.ofNat raw.length = rd32 payload 4 info.littleEndian := by
      rw [hrawlen, ← hrawLen, UInt32.ofNat_toNat]
    rw [← header_of_read info.littleEndian payload (by omega), hmagic, ← htable, ← hword]
    rfl
  have hsplit : payload.take (payload.length - 4) = p.body ++ rest := by
    rw [take_split payload info.rawLen.toNat (by omega), hstop.split, Payload.body, hheader]
    simp [p, hraw]
  obtain ⟨hout, hcode, hok⟩ := verifyChecksum_cases _ hstop.code
  refine ⟨p, rest, hsplit, hstop.valid, hout.trans hstop.out_eq, hout ▸ hstop.fits, hcode,
    fun h => ?_⟩
  obtain ⟨hrc, hsum⟩ := hok h
  have hrest : rest = [] := hstop.all_read hrc
  have hsum' : info.checksumComputed = info.checksumStored := by
    rw [hstop.computed, hstop.stored] at hsum
    exact hsum
  refine ⟨hrest, ?_⟩
  rw [← hstored, ← hsum', hcomputed, hsplit, hrest, List.append_nil]

/-- A decode with a recognised magic either stopped in the header or reached
the tokens. -/
theorem decodeBody_cases (payload : Bytes) (outCap : Nat) (le : Bool)
    (hlen : 140 ≤ payload.length) (hmagic : rd32 payload 0 le = CODEC11_MAGIC) :
    let r := decodeBody payload outCap le
    (r.out = [] ∧ r.rc ∈ decodeErrors) ∨ ∃ p rest, Reached payload outCap r p rest := by
  simp only [decodeBody]
  split_ifs with h128 hshort hcap
  · exact .inl ⟨rfl, by simp [decodeErrors]⟩
  · exact .inl ⟨rfl, by simp [decodeErrors]⟩
  · exact .inl ⟨rfl, by simp [decodeErrors]⟩
  · exact .inr (decodeStream_reached payload outCap _ hmagic rfl rfl rfl rfl (by simpa using h128)
      (by dsimp only; omega) (by simpa using hcap))

theorem codec11Decode_cases (payload : Bytes) (outCap : Nat) :
    let r := codec11Decode payload outCap
    (r.out = [] ∧ r.rc ∈ decodeErrors) ∨ ∃ p rest, Reached payload outCap r p rest := by
  by_cases hlen : payload.length < 136 + 4
  · simp [codec11Decode, hlen, decodeErrors]
  by_cases hle : rd32 payload 0 true = CODEC11_MAGIC
  · rw [codec11Decode_eq_decodeBody outCap (by omega) hle]
    exact decodeBody_cases payload outCap true (by omega) hle
  by_cases hbe : rd32 payload 0 false = CODEC11_MAGIC
  · rw [codec11Decode_eq_decodeBody outCap (by omega) hbe]
    exact decodeBody_cases payload outCap false (by omega) hbe
  · rw [codec11Decode, if_neg hlen, if_neg hle, if_neg hbe]
    simp [decodeErrors]

/-- An accepted payload is a payload of the format, byte for byte. -/
theorem Reached.bytes_eq {payload : Bytes} {outCap : Nat} {r : DecodeResult} {p : Payload}
    {rest : Bytes} (h : Reached payload outCap r p rest) (hok : r.rc = OK) :
    payload = p.bytes := by
  obtain ⟨hrest, hsum⟩ := h.accepted hok
  have hsplit := h.split
  rw [hrest, List.append_nil] at hsplit
  have hlong : 4 ≤ payload.length := by
    have := congrArg List.length hsplit
    rw [Payload.body, List.length_append, List.length_append, Payload.length_header,
      List.length_take] at this
    omega
  have htail : payload.drop (payload.length - 4) = Word.be32 (checksum p.body) := by
    have hword := word32_rd32 false payload (payload.length - 4) (by omega)
    rw [hsum, List.take_of_length_le (by rw [List.length_drop]; omega)] at hword
    exact hword.symm
  rw [Payload.bytes, ← checksum_eq_ofNat, ← htail, ← hsplit, List.take_append_drop]

/-- The decoder returns `OK` with output `o` exactly on the payloads of the
format whose output `o` fits the capacity.  On every other byte string it
returns a documented error, and what it wrote is what the raw bytes and the
well-formed tokens in front of the failure expand to. -/
theorem codec11Decode_format (payload : Bytes) (outCap : Nat) :
    (∀ o, ((codec11Decode payload outCap).rc = OK ∧ (codec11Decode payload outCap).out = o) ↔
      ∃ p : Payload, payload = p.bytes ∧ p.Valid ∧ o = p.output ∧ o.length ≤ outCap) ∧
    ((codec11Decode payload outCap).rc ≠ OK →
      (codec11Decode payload outCap).rc ∈ decodeErrors ∧
      (codec11Decode payload outCap).out.length ≤ outCap ∧
      ((codec11Decode payload outCap).out = [] ∨
        ∃ p : Payload, p.body <+: payload.take (payload.length - 4) ∧ p.Valid ∧
          (codec11Decode payload outCap).out = p.output)) := by
  have hcases := codec11Decode_cases payload outCap
  refine ⟨fun o => ⟨?_, ?_⟩, fun hne => ?_⟩
  · rintro ⟨hok, rfl⟩
    rcases hcases with ⟨-, hmem⟩ | ⟨p, rest, h⟩
    · rw [hok] at hmem
      exact absurd hmem (by decide)
    · exact ⟨p, h.bytes_eq hok, h.valid, h.out_eq, h.fits⟩
  · rintro ⟨p, rfl, hvalid, rfl, hfits⟩
    obtain ⟨hrc, hout, -⟩ := codec11Decode_bytes p outCap hvalid hfits
    exact ⟨hrc, hout⟩
  · rcases hcases with ⟨hout, hmem⟩ | ⟨p, rest, h⟩
    · exact ⟨hmem, by rw [hout]; exact Nat.zero_le _, .inl hout⟩
    · refine ⟨h.code.resolve_left hne, h.fits, .inr ⟨p, ?_, h.valid, h.out_eq⟩⟩
      rw [h.split]
      exact List.prefix_append _ _

end Airbridge.Qpdl
