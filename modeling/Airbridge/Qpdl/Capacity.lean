import Airbridge.Lib.Capacity
import Airbridge.Lib.Run
import Airbridge.Qpdl.Stream

/-!
# What the capacity of an output buffer decides

Both directions of the 0x11 codec check their capacity in front of every
write.  For the decoder the checks come in an order that keeps the error of a
damaged payload independent of the buffer (`codec11Decode_capacity`).  For the
encoder the capacity only decides between the whole payload and a prefix of
it, and the bound that the workspace of a page is sized by always suffices
(`codec11Encode_capacity`).
-/

namespace Airbridge.Qpdl

/-! ## The decoder -/

/-- The token loop never takes output back. -/
theorem prefix_decodeTokens (outCap : Nat) (s out : Bytes) (info : Codec11Info) :
    out <+: (decodeTokens outCap s out info).out := by
  fun_induction decodeTokens outCap s out info with
  | case1 | case2 | case3 | case4 | case6 | case7 => exact List.prefix_refl _
  | case5 out info b1 hb b2 s length index offset info' hgood hroom ih =>
    exact (Lz77.prefix_copyBack offset length out).trans ih
  | case8 out info b1 s hb count info' hlong hroom ih =>
    exact (List.prefix_append out (s.take count)).trans ih

/-- A loop that did not run out of room takes the same course at every
capacity its output fits in. -/
theorem decodeTokens_same (outCap outCap' : Nat) (s out : Bytes) (info : Codec11Info)
    (hroom : (decodeTokens outCap s out info).rc ≠ EOVERFLOW)
    (hfits : (decodeTokens outCap s out info).out.length ≤ outCap') :
    decodeTokens outCap' s out info = decodeTokens outCap s out info := by
  fun_induction decodeTokens outCap s out info with
  | case1 out info => rw [decodeTokens]
  | case2 out info b1 hb =>
    rw [decodeTokens.eq_def]
    simp only [if_pos hb]
  | case3 out info b1 hb b2 s length index offset info' hbad =>
    rw [decodeTokens.eq_def]
    simp only [if_pos hb]
    exact if_pos hbad
  | case4 | case7 => exact absurd rfl hroom
  | case5 out info b1 hb b2 s length index offset info' hgood hfull ih =>
    have hlen := (prefix_decodeTokens outCap s (Lz77.copyBack offset length out) info').length_le
    rw [Lz77.length_copyBack] at hlen
    have hroom' : ¬outCap' - out.length < length := by omega
    rw [decodeTokens.eq_def]
    simp only [if_pos hb]
    rw [if_neg hgood, if_neg hroom']
    exact ih hroom hfits
  | case6 out info b1 s hb count info' hshort =>
    rw [decodeTokens.eq_def]
    simp only [if_neg hb]
    exact if_pos hshort
  | case8 out info b1 s hb count info' hlong hfull ih =>
    have hlen := (prefix_decodeTokens outCap (s.drop count) (out ++ s.take count) info').length_le
    rw [List.length_append, List.length_take_of_le (by omega)] at hlen
    have hroom' : ¬outCap' - out.length < count := by omega
    rw [decodeTokens.eq_def]
    simp only [if_neg hb]
    rw [if_neg hlong, if_neg hroom']
    exact ih hroom hfits

/-- What a loop has written when it runs out of room is the beginning of what
it writes with more room. -/
theorem decodeTokens_starts (outCap outCap' : Nat) (s out : Bytes) (info : Codec11Info)
    (hle : outCap ≤ outCap') (hfull : (decodeTokens outCap s out info).rc = EOVERFLOW) :
    (decodeTokens outCap s out info).out <+: (decodeTokens outCap' s out info).out := by
  fun_induction decodeTokens outCap s out info with
  | case1 | case2 | case3 | case6 => simp at hfull
  | case4 | case7 => exact prefix_decodeTokens outCap' _ _ _
  | case5 out info b1 hb b2 s length index offset info' hgood hroom ih =>
    have hroom' : ¬outCap' - out.length < length := by omega
    rw [decodeTokens.eq_def outCap' (b1 :: b2 :: s)]
    simp only [if_pos hb]
    rw [if_neg hgood, if_neg hroom']
    exact ih hfull
  | case8 out info b1 s hb count info' hlong hroom ih =>
    have hroom' : ¬outCap' - out.length < count := by omega
    rw [decodeTokens.eq_def outCap' (b1 :: s)]
    simp only [if_neg hb]
    rw [if_neg hlong, if_neg hroom']
    exact ih hfull

/-- A decode that ran out of room. -/
def DecodeResult.Full (r : DecodeResult) : Prop := r.rc = EOVERFLOW

@[simp] theorem verifyChecksum_out (r : DecodeResult) : (verifyChecksum r).out = r.out := by
  unfold verifyChecksum
  split_ifs <;> rfl

/-- The checksum is only looked at when there was room. -/
theorem verifyChecksum_full (r : DecodeResult) : (verifyChecksum r).Full ↔ r.Full := by
  unfold verifyChecksum DecodeResult.Full
  split_ifs with hrc hsum
  · rfl
  · rw [not_not] at hrc
    simp [hrc]
  · rw [not_not] at hrc
    simp [hrc]

/-- Behind the raw bytes, which the decoder asks room for first. -/
theorem decodeStream_limited (payload : Bytes) {info : Codec11Info} {rawLen : Nat}
    (hinfo : info.rawLen.toNat = rawLen) (hraw : 136 + rawLen ≤ payload.length) :
    Limited DecodeResult.out DecodeResult.Full fun outCap =>
      if rawLen > outCap then ⟨EOVERFLOW, [], info⟩ else decodeStream payload outCap info := by
  subst hinfo
  have hlen : ((payload.drop 136).take info.rawLen.toNat).length = info.rawLen.toNat := by
    rw [List.length_take, List.length_drop]
    omega
  unfold decodeStream
  dsimp only
  generalize (payload.drop 136).take info.rawLen.toNat = raw at hlen ⊢
  generalize (payload.take (payload.length - 4)).drop (136 + info.rawLen.toNat) = s
  generalize { info with streamLen := s.length } = info'
  apply Limited.gate
  · rfl
  · rfl
  · intro c hc
    obtain ⟨toks, rest, hstop⟩ := decodeTokens_stopped c s raw info' (hlen.trans_le hc)
    rw [verifyChecksum_out]
    exact hstop.fits
  · intro c
    rw [verifyChecksum_out, ← hlen]
    exact (prefix_decodeTokens c s raw info').length_le
  · intro c c' hroom hle
    rw [verifyChecksum_full] at hroom
    rw [verifyChecksum_out] at hle
    rw [decodeTokens_same c c' s raw info' hroom hle]
  · intro c c' hle hfull
    rw [verifyChecksum_full] at hfull
    rw [verifyChecksum_out, verifyChecksum_out]
    exact decodeTokens_starts c c' s raw info' hle hfull

theorem decodeBody_limited (payload : Bytes) (le : Bool) (hlen : 140 ≤ payload.length) :
    Limited DecodeResult.out DecodeResult.Full fun outCap => decodeBody payload outCap le := by
  unfold decodeBody
  dsimp only
  by_cases hrange : (rd32 payload 4 le).toNat > 128
  · simp only [if_pos hrange]
    exact Limited.const rfl (by simp [DecodeResult.Full])
  simp only [if_neg hrange]
  by_cases hshort : payload.length - 4 - 136 < (rd32 payload 4 le).toNat
  · simp only [if_pos hshort]
    exact Limited.const rfl (by simp [DecodeResult.Full])
  simp only [if_neg hshort]
  apply decodeStream_limited
  · rfl
  · omega

/-- The decoder as a program that fills a buffer. -/
theorem codec11Decode_limited (payload : Bytes) :
    Limited DecodeResult.out DecodeResult.Full (codec11Decode payload) := by
  unfold codec11Decode
  by_cases hlen : payload.length < 136 + 4
  · simp only [if_pos hlen]
    exact Limited.const rfl (by simp [DecodeResult.Full])
  simp only [if_neg hlen]
  by_cases hle : rd32 payload 0 true = CODEC11_MAGIC
  · simp only [if_pos hle]
    exact decodeBody_limited payload true (by omega)
  simp only [if_neg hle]
  by_cases hbe : rd32 payload 0 false = CODEC11_MAGIC
  · simp only [if_pos hbe]
    exact decodeBody_limited payload false (by omega)
  · simp only [if_neg hbe]
    exact Limited.const rfl (by simp [DecodeResult.Full])

/-- The decoder's capacity is monotone.  An answer other than `EOVERFLOW` is
given unchanged, statistics included, at every larger capacity, and after
`EOVERFLOW` the bytes written are the beginning of what a larger buffer
receives.  So a payload that decodes to `n` bytes overflows every buffer below
`n` and gets the same answer in every other one. -/
theorem codec11Decode_capacity (payload : Bytes) :
    (∀ c1 c2, c1 ≤ c2 →
      ((codec11Decode payload c1).rc ≠ EOVERFLOW →
        codec11Decode payload c2 = codec11Decode payload c1) ∧
      ((codec11Decode payload c1).rc = EOVERFLOW →
        (codec11Decode payload c1).out.length ≤ c1 ∧
          (codec11Decode payload c1).out <+: (codec11Decode payload c2).out)) ∧
    ∀ c0 n, (codec11Decode payload c0).rc ≠ EOVERFLOW →
      (codec11Decode payload c0).out.length = n →
        (∀ c, c < n → (codec11Decode payload c).rc = EOVERFLOW) ∧
          ∀ c, n ≤ c → codec11Decode payload c = codec11Decode payload c0 := by
  have h := codec11Decode_limited payload
  refine ⟨?_, ?_⟩
  · intro c1 c2 hle
    refine ⟨?_, ?_⟩
    · intro hroom
      exact h.mono hle hroom
    · intro hfull
      exact ⟨h.fits c1, h.starts c1 c2 hle hfull⟩
  · intro c0 n hroom hn
    refine ⟨?_, ?_⟩
    · intro c hlt
      exact h.full_of_lt (hn ▸ hlt)
    · intro c hle
      exact h.same c0 c hroom (hn ▸ hle)

/-! ## The encoder -/

/-- The encoder as a write of one payload: everything, or a prefix within the
capacity. -/
theorem codec11Encode_writes (band : Bytes) (table : Table) (outCap : Nat) :
    let payload := (encodedPayload band table).bytes
    (payload.length ≤ outCap → codec11Encode band table outCap = ⟨OK, payload⟩) ∧
      (outCap < payload.length →
        (codec11Encode band table outCap).rc = EOVERFLOW ∧
          (codec11Encode band table outCap).out.length ≤ outCap ∧
          (codec11Encode band table outCap).out <+: payload) := by
  intro payload
  refine ⟨codec11Encode_eq, fun hlt => ?_⟩
  have hwrites := encodePayload_writes band table outCap
  unfold codec11Encode
  generalize encodePayload band table outCap = r at hwrites
  cases hwrites with
  | ok fits =>
    rw [List.length_nil, Nat.zero_add] at fits
    exact absurd hlt (Nat.not_lt.mpr fits)
  | full exceeds hstart hle =>
    rw [List.nil_append] at hstart
    exact ⟨rfl, hle, hstart⟩

/-- One call of `m2022_qpdl_write_line` in a page, whatever it returns. -/
def pageStep (e : Encoder) (bits : Option Bytes) : Encoder := (qpdlWriteLine e bits).2

/-- The band `flush_band` hands to the codec. -/
def Encoder.flushedBand (e : Encoder) : Bytes :=
  let size := e.bytesPerRow * 128
  rowsToBand (Buffer.load e.workspace e.rows size) e.bytesPerRow
    (Buffer.load e.workspace e.band size)

/-- A page that was opened has the geometry of its width. -/
theorem beginPage_geometry {e : Encoder} {width : Nat} {workspace : Option Bytes}
    (hclosed : e.inPage = false) (hopen : (qpdlBeginPage e width workspace).2.inPage = true) :
    Geometry (qpdlBeginPage e width workspace).2 width := by
  unfold qpdlBeginPage at hopen ⊢
  split_ifs at hopen ⊢ with hstate hrange
  · rw [hclosed] at hopen
    cases hopen
  · rw [hclosed] at hopen
    cases hopen
  · cases workspace with
    | none =>
      rw [hclosed] at hopen
      cases hopen
    | some workspace =>
      dsimp only at hopen ⊢
      split_ifs at hopen ⊢ with hroom
      · rw [hclosed] at hopen
        cases hopen
      · have hpage := openPage_buffered e (by omega) (by omega) (not_lt.mp hroom)
        exact (emit_kept _ _).geometry hpage.toGeometry

/-- The calls of a page keep its geometry, whatever they return. -/
theorem pageRun_geometry {e : Encoder} {width : Nat} (h : Geometry e width)
    (lines : List (Option Bytes)) : Geometry (Run.run pageStep e lines) width :=
  Run.run_invariant (fun e bits h => (writeLine_kept e bits).geometry h) h lines

/-- The payload slice of a page has room for every band of its width. -/
theorem codec11Encode_flushedBand {e : Encoder} {width : Nat} (h : Geometry e width)
    (table : Table) : (codec11Encode e.flushedBand table e.payloadCap).rc = OK := by
  have hroom := h.room
  have hbytes := bandBytes_eq width
  rw [qpdlEncoderWorkspaceBytes] at hroom
  have hlen : e.flushedBand.length = bandBytes width := by
    unfold Encoder.flushedBand
    dsimp only
    rw [length_rowsToBand, h.bytesPerRow_eq, h.band_eq, Buffer.length_load_of_le (by omega), hbytes]
  have hbound := (encodedPayload_spec e.flushedBand table).2.2
  rw [h.payloadCap_eq, ← hlen, codec11Encode_eq hbound]

/-- The codes of a flush: the band number is out of range, or the sink decides. -/
theorem flushBand_code {e : Encoder} {width : Nat} (h : Geometry e width) :
    (flushBand e).1 = ERANGE ∨ (flushBand e).1 = OK ∨
      (flushBand e).1 = e.sink.answer e.sink.calls ∨
      (flushBand e).1 = e.sink.answer (e.sink.calls + 1) := by
  by_cases hn : 255 < e.bandNumber
  · left
    rw [flushBand_range hn]
  by_cases hw : e.rowBuffer.all (· == 0) = true
  · right; left
    rw [flushBand_blank (not_lt.mp hn) hw]
  rw [Bool.not_eq_true] at hw
  obtain ⟨e1, -, -, he1, -, hflush⟩ := flushBand_encoded h (not_lt.mp hn) hw
  have hsink : e1.sink = e.sink := by rw [he1]
  rw [hflush, ← hsink]
  unfold sendBand orReturn
  dsimp only
  split_ifs with h0 h1
  · right; right; left
    rfl
  · right; right; right
    rfl
  · right; left
    rfl

/-- The size bound suffices, and the capacity only decides success.  There is
one payload for a band and a table, within the bound; a buffer with room for
it receives it, and any other one receives a prefix of it with `EOVERFLOW`.
The output of the model is everything the encoder wrote, so its length being
within the capacity is the absence of a write behind it.

Hence on a page of any width, behind any lines and any answers of the sink, the
encoder called by `flush_band` returns `OK`, and a flush returns 0, `ERANGE`
or the code of its sink. -/
theorem codec11Encode_capacity :
    (∀ (band : Bytes) (table : Table), ∃ payload : Bytes,
      payload.length ≤ codec11EncodeBound band.length ∧
      ∀ c, (codec11Encode band table c).out.length ≤ c ∧
        (payload.length ≤ c → codec11Encode band table c = ⟨OK, payload⟩) ∧
        (c < payload.length →
          (codec11Encode band table c).rc = EOVERFLOW ∧
            (codec11Encode band table c).out <+: payload)) ∧
    ∀ (e : Encoder) (width : Nat) (workspace : Option Bytes) (lines : List (Option Bytes)),
      e.inPage = false → (qpdlBeginPage e width workspace).2.inPage = true →
      ∀ e', (e' = Run.run pageStep (qpdlBeginPage e width workspace).2 lines ∨
          ∃ bits, e' = (Run.run pageStep (qpdlBeginPage e width workspace).2 lines).bufferLine bits) →
        (codec11Encode e'.flushedBand (codec11ChooseTable e'.flushedBand) e'.payloadCap).rc = OK ∧
          ((flushBand e').1 = ERANGE ∨ (flushBand e').1 = OK ∨
            (flushBand e').1 = e'.sink.answer e'.sink.calls ∨
            (flushBand e').1 = e'.sink.answer (e'.sink.calls + 1)) := by
  refine ⟨?_, ?_⟩
  · intro band table
    refine ⟨(encodedPayload band table).bytes, (encodedPayload_spec band table).2.2, ?_⟩
    intro c
    obtain ⟨hok, hfull⟩ := codec11Encode_writes band table c
    refine ⟨?_, hok, fun hlt => ⟨(hfull hlt).1, (hfull hlt).2.2⟩⟩
    rcases Nat.lt_or_ge c (encodedPayload band table).bytes.length with hlt | hge
    · exact (hfull hlt).2.1
    · rw [hok hge]
      exact hge
  · intro e width workspace lines hclosed hopen e' he'
    have hrun := pageRun_geometry (beginPage_geometry hclosed hopen) lines
    have hgeom : Geometry e' width := by
      rcases he' with rfl | ⟨bits, rfl⟩
      · exact hrun
      · exact (bufferLine_kept _ bits).geometry hrun
    exact ⟨codec11Encode_flushedBand hgeom _, flushBand_code hgeom⟩

end Airbridge.Qpdl
