import Airbridge.Qpdl.Decode11

/-!
# A payload with one altered byte is rejected

An accepted payload is a body followed by the sum of its bytes
(`Reached.bytes_eq`), whatever else the decoder read in it.  Of two accepted
payloads of one length that differ in a single byte, either the bodies are
equal, and then so are the sums, or the sums are stored alike, and then the
bodies have equal sums.  One altered byte changes a 32-bit sum by less than
256, so it never cancels (`checksum_set`).
-/

namespace Airbridge.Qpdl

/-- `altered` has the length of `payload` and differs from it in exactly one
byte. -/
def OneByteAltered (payload altered : Bytes) : Prop :=
  altered.length = payload.length ∧ ∃! i, byteAt altered i ≠ byteAt payload i

theorem byteAt_eq_zero {p : Bytes} {i : Nat} (h : p.length ≤ i) : byteAt p i = 0 :=
  List.getD_eq_default p 0 h

/-- The altered string is the payload with one byte overwritten. -/
theorem OneByteAltered.exists_set {payload altered : Bytes}
    (h : OneByteAltered payload altered) :
    ∃ i b, i < payload.length ∧ b ≠ byteAt payload i ∧ altered = payload.set i b := by
  obtain ⟨hlen, i, hne, hsame⟩ := h
  have hi : i < payload.length := by
    by_contra hge
    rw [byteAt_eq_zero (by omega), byteAt_eq_zero (by omega)] at hne
    exact hne rfl
  refine ⟨i, byteAt altered i, hi, hne, ?_⟩
  apply List.ext_getElem
  · simp [hlen]
  · intro k hk hk'
    rw [List.getElem_set]
    split_ifs with hik
    · subst hik
      exact (byteAt_eq_getElem hk).symm
    · have hkp : k < payload.length := by omega
      by_contra hdiff
      rw [← byteAt_eq_getElem hk, ← byteAt_eq_getElem hkp] at hdiff
      exact hik (hsame k hdiff).symm

/-- Overwriting a byte by another one alters exactly that byte. -/
theorem oneByteAltered_set {payload : Bytes} {i : Nat} {b : UInt8} (hi : i < payload.length)
    (hb : b ≠ byteAt payload i) : OneByteAltered payload (payload.set i b) := by
  refine ⟨List.length_set, i, ?_, ?_⟩
  · simpa [byteAt, hi] using hb
  · intro k hk
    by_contra hne
    apply hk
    simp [byteAt, List.getElem?_set_ne (Ne.symm hne)]

/-- One altered byte changes the 32-bit sum. -/
theorem checksum_set {bytes : Bytes} {i : Nat} {b : UInt8} (hi : i < bytes.length)
    (h : checksum (bytes.set i b) = checksum bytes) : b = byteAt bytes i := by
  have hsum := congrArg UInt32.toNat h
  have hsplit : bytes = bytes.take i ++ byteAt bytes i :: bytes.drop (i + 1) := by
    rw [byteAt_eq_getElem hi, ← List.drop_eq_getElem_cons hi, List.take_append_drop]
  have hset : bytes.set i b = bytes.take i ++ b :: bytes.drop (i + 1) := by
    rw [List.set_eq_take_append_cons_drop, if_pos hi]
  have hold_sum : (bytes.map UInt8.toNat).sum = ((bytes.take i).map UInt8.toNat).sum +
      ((byteAt bytes i).toNat + ((bytes.drop (i + 1)).map UInt8.toNat).sum) := by
    conv => lhs; rw [hsplit]
    simp
  rw [toNat_checksum, toNat_checksum, hset, hold_sum] at hsum
  simp only [List.map_append, List.map_cons, List.sum_append, List.sum_cons] at hsum
  have hb := b.toNat_lt
  have hold := (byteAt bytes i).toNat_lt
  apply UInt8.toNat_inj.mp
  omega

/-- An accepted payload ends in the sum of the bytes in front of it. -/
theorem accepted_sum {payload : Bytes} {outCap : Nat}
    (hok : (codec11Decode payload outCap).rc = OK) :
    payload = payload.take (payload.length - 4) ++
      Word.be32 (checksum (payload.take (payload.length - 4))) := by
  rcases codec11Decode_cases payload outCap with ⟨-, hmem⟩ | ⟨p, rest, h⟩
  · rw [hok] at hmem
    exact absurd hmem (by decide)
  · have heq := h.bytes_eq hok
    have htake : payload.take (payload.length - 4) = p.body := by rw [heq, p.take_bytes]
    rw [htake, heq, Payload.bytes, checksum_eq_ofNat]

/-- Of two byte strings that both end in the sum of the bytes in front, one
is not the other with a single byte altered. -/
theorem not_oneByteAltered_of_sums {body body' : Bytes}
    (hlen : body'.length = body.length) :
    ¬OneByteAltered (body ++ Word.be32 (checksum body)) (body' ++ Word.be32 (checksum body')) := by
  intro halt
  obtain ⟨i, b, hi, hb, hset⟩ := halt.exists_set
  rcases Nat.lt_or_ge i body.length with hin | hout
  · -- the body is altered, the stored sum is the old one
    rw [List.set_append_left _ _ hin] at hset
    obtain ⟨hbody, hsum⟩ := List.append_inj hset (by simp [hlen])
    have hword : checksum body' = checksum body := Word.be32_injective hsum
    rw [byteAt_append _ hin] at hb
    rw [hbody] at hword
    exact hb (checksum_set hin hword)
  · -- the stored sum is altered, the body is the old one
    rw [List.set_append_right _ _ hout] at hset
    obtain ⟨hbody, hsum⟩ := List.append_inj hset hlen
    have hsame : body' ++ Word.be32 (checksum body') = body ++ Word.be32 (checksum body) := by
      rw [hbody]
    obtain ⟨j, hne, -⟩ := halt.2
    rw [hsame] at hne
    exact hne rfl

/-- A payload that the decoder accepts at some capacity, with exactly one byte
altered, is accepted at none. -/
theorem codec11Decode_altered (payload altered : Bytes) (outCap outCap' : Nat)
    (hok : (codec11Decode payload outCap).rc = OK) (halt : OneByteAltered payload altered) :
    (codec11Decode altered outCap').rc ≠ OK := by
  intro hok'
  have hbody : (altered.take (altered.length - 4)).length =
      (payload.take (payload.length - 4)).length := by
    rw [List.length_take, List.length_take, halt.1]
  rw [accepted_sum hok, accepted_sum hok'] at halt
  exact not_oneByteAltered_of_sums hbody halt

/-- The payload of one raw byte with nothing behind it, and the same payload
with another raw byte. -/
theorem codec11Decode_altered_raw_byte :
    let p : Payload := ⟨false, .zero, [0xFF], by decide, []⟩
    (codec11Decode p.bytes 128).rc = OK ∧ (codec11Decode (p.bytes.set 136 0xFE) 128).rc ≠ OK := by
  intro p
  have hok : (codec11Decode p.bytes 128).rc = OK :=
    (codec11Decode_bytes p 128 trivial (by decide)).1
  refine ⟨hok, codec11Decode_altered p.bytes _ 128 128 hok (oneByteAltered_set ?_ ?_)⟩
  · decide +kernel
  · decide +kernel

end Airbridge.Qpdl
