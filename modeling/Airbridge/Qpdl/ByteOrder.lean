import Airbridge.Qpdl.Decode11
import Mathlib.Data.List.Induction

/-!
# The byte order of a payload

The magic, the raw length and the table of a payload share one byte order,
which the decoder reads off the magic.  `swapHeader` turns these fields round
in place.  Everything the decoder reads from them comes out the same under the
other order, the bytes behind them are where they were, and the checksum is a
sum over the same bytes, so only `little_endian` tells the two payloads apart.
-/

namespace Airbridge.Qpdl

/-- Every two neighbours change places. -/
def swapPairs : Bytes → Bytes
  | a :: b :: rest => b :: a :: swapPairs rest
  | rest => rest

/-- The payload with its 4 magic bytes, its 4 raw-length bytes and each of its
64 table entries reversed in place. -/
def swapHeader (payload : Bytes) : Bytes :=
  (payload.take 4).reverse ++ ((payload.drop 4).take 4).reverse ++
    swapPairs ((payload.drop 8).take 128) ++ payload.drop 136

/-- The magic is recognised, in one order or the other. -/
def MagicRecognised (payload : Bytes) : Prop :=
  140 ≤ payload.length ∧
    (rd32 payload 0 true = CODEC11_MAGIC ∨ rd32 payload 0 false = CODEC11_MAGIC)

instance (payload : Bytes) : Decidable (MagicRecognised payload) :=
  inferInstanceAs (Decidable (_ ∧ _))

/-! ## The swapped fields -/

theorem swapPairs_perm (s : Bytes) : (swapPairs s).Perm s := by
  induction s using List.twoStepInduction with
  | nil => exact List.Perm.refl []
  | singleton a => exact List.Perm.refl [a]
  | cons_cons a b rest ih _ => exact (List.Perm.swap a b _).trans ((ih.cons b).cons a)

/-- An entry of the table reads the same in the other order. -/
theorem rd16_swapPairs (s : Bytes) (i : Nat) (le : Bool) (h : 2 * i + 1 < s.length) :
    rd16 (swapPairs s) (2 * i) le = rd16 s (2 * i) (!le) := by
  induction s using List.twoStepInduction generalizing i with
  | nil => simp at h
  | singleton a => simp at h
  | cons_cons a b rest ih _ =>
    rw [swapPairs]
    cases i with
    | zero => cases le <;> simp [rd16, byteAt, Word.ofLe16]
    | succ i =>
      have hrest := ih i (by simp only [List.length_cons] at h; omega)
      have hskip (x y : UInt8) (s : Bytes) (le : Bool) :
          rd16 (x :: y :: s) (2 * (i + 1)) le = rd16 s (2 * i) le := by
        simp [rd16, byteAt, Nat.mul_succ]
      rw [hskip, hskip, hrest]

/-- A word of four bytes reads the same turned round in the other order. -/
theorem rd32_reverse {m : Bytes} (hm : m.length = 4) (s s' : Bytes) (le : Bool) :
    rd32 (m.reverse ++ s) 0 le = rd32 (m ++ s') 0 (!le) := by
  match m, hm with
  | [a, b, c, d], _ => cases le <;> simp [rd32, byteAt, Word.ofLe32]

theorem rd16_append_left {a : Bytes} (b : Bytes) {i : Nat} (le : Bool) (h : i + 1 < a.length) :
    rd16 (a ++ b) i le = rd16 a i le := by
  rw [rd16, rd16, byteAt_append b (by omega), byteAt_append b h]

section

variable {payload : Bytes} (hlen : 136 ≤ payload.length)

include hlen

theorem length_swapHeader : (swapHeader payload).length = payload.length := by
  have hpairs := (swapPairs_perm ((payload.drop 8).take 128)).length_eq
  simp only [List.length_take, List.length_drop] at hpairs
  simp only [swapHeader, List.length_append, List.length_reverse, List.length_take,
    List.length_drop, hpairs]
  omega

theorem rd32_swapHeader_magic (le : Bool) :
    rd32 (swapHeader payload) 0 le = rd32 payload 0 (!le) := by
  have h4 : (payload.take 4).length = 4 := List.length_take_of_le (by omega)
  rw [swapHeader, List.append_assoc, List.append_assoc,
    rd32_reverse h4 _ (payload.drop 4) le, List.take_append_drop]

theorem rd32_swapHeader_rawLen (le : Bool) :
    rd32 (swapHeader payload) 4 le = rd32 payload 4 (!le) := by
  have h4 : (payload.take 4).length = 4 := List.length_take_of_le (by omega)
  have h4' : ((payload.drop 4).take 4).length = 4 := by
    rw [List.length_take, List.length_drop]
    omega
  have hskip := rd32_append_right (payload.take 4) (payload.drop 4) 0 (!le)
  have hskip' := rd32_append_right (payload.take 4).reverse
    (((payload.drop 4).take 4).reverse ++
      (swapPairs ((payload.drop 8).take 128) ++ payload.drop 136)) 0 le
  rw [List.take_append_drop, h4, Nat.add_zero] at hskip
  rw [List.length_reverse, h4, Nat.add_zero] at hskip'
  rw [swapHeader, List.append_assoc, List.append_assoc, hskip', hskip,
    rd32_reverse h4' _ ((payload.drop 4).drop 4) le, List.take_append_drop]

theorem rdTable_swapHeader (le : Bool) : rdTable (swapHeader payload) le = rdTable payload (!le) := by
  have hfront : ((payload.take 4).reverse ++ ((payload.drop 4).take 4).reverse).length = 8 := by
    simp only [List.length_append, List.length_reverse, List.length_take, List.length_drop]
    omega
  have h8 : (payload.take 8).length = 8 := List.length_take_of_le (by omega)
  have htable : ((payload.drop 8).take 128).length = 128 := by
    rw [List.length_take, List.length_drop]
    omega
  have hpairs := (swapPairs_perm ((payload.drop 8).take 128)).length_eq
  unfold rdTable
  congr 1
  apply List.map_congr_left
  intro i hi
  have hi64 : i < 64 := List.mem_range.mp hi
  have hswapped := rd16_append_right
    ((payload.take 4).reverse ++ ((payload.drop 4).take 4).reverse)
    (swapPairs ((payload.drop 8).take 128) ++ payload.drop 136) (2 * i) le
  have hplain := rd16_append_right (payload.take 8) (payload.drop 8) (2 * i) (!le)
  have hrest : (payload.drop 8).drop 128 = payload.drop 136 := by rw [List.drop_drop]
  rw [hfront] at hswapped
  rw [h8, List.take_append_drop, ← List.take_append_drop 128 (payload.drop 8), hrest] at hplain
  rw [swapHeader, List.append_assoc _ (swapPairs _), hswapped, hplain,
    rd16_append_left _ _ (by omega), rd16_append_left _ _ (by omega),
    rd16_swapPairs _ _ _ (by omega)]

/-- Behind the header nothing moves. -/
theorem drop_swapHeader {n : Nat} (hn : 136 ≤ n) :
    (swapHeader payload).drop n = payload.drop n := by
  have hpairs := (swapPairs_perm ((payload.drop 8).take 128)).length_eq
  have hfront : ((payload.take 4).reverse ++ ((payload.drop 4).take 4).reverse ++
      swapPairs ((payload.drop 8).take 128)).length = 136 := by
    simp only [List.length_append, List.length_reverse, List.length_take, List.length_drop] at hpairs ⊢
    omega
  obtain ⟨k, rfl⟩ := Nat.exists_eq_add_of_le hn
  rw [swapHeader, ← List.drop_drop, List.drop_left' hfront, List.drop_drop]

theorem rd32_swapHeader_behind {i : Nat} (hi : 136 ≤ i) (le : Bool) :
    rd32 (swapHeader payload) i le = rd32 payload i le := by
  have hbyte (k : Nat) : byteAt (swapHeader payload) (i + k) = byteAt payload (i + k) := by
    rw [← byteAt_drop, drop_swapHeader hlen hi, byteAt_drop]
  have h0 := hbyte 0
  rw [Nat.add_zero] at h0
  rw [rd32, rd32, h0, hbyte, hbyte, hbyte]

/-- The sum of the bytes up to any place behind the header. -/
theorem checksum_swapHeader {n : Nat} (hn : 136 ≤ n) :
    checksum ((swapHeader payload).take n) = checksum (payload.take n) := by
  have hperm : (swapHeader payload).Perm payload := by
    have hsplit : payload = payload.take 4 ++ (payload.drop 4).take 4 ++
        (payload.drop 8).take 128 ++ payload.drop 136 := by
      conv_lhs => rw [← List.take_append_drop 4 payload,
        ← List.take_append_drop 4 (payload.drop 4), List.drop_drop,
        ← List.take_append_drop 128 (payload.drop (4 + 4)), List.drop_drop]
      simp only [List.append_assoc]
    conv_rhs => rw [hsplit]
    exact (((List.reverse_perm _).append (List.reverse_perm _)).append
      (swapPairs_perm _)).append_right _
  have htake : ((swapHeader payload).take n).Perm (payload.take n) := by
    apply (List.perm_append_right_iff (payload.drop n)).mp
    rw [List.take_append_drop, ← drop_swapHeader hlen hn, List.take_append_drop]
    exact hperm
  rw [checksum_eq_ofNat, checksum_eq_ofNat, (htake.map UInt8.toNat).sum_nat]

end

/-! ## The decoder under another order -/

/-- A result with another `little_endian`. -/
def DecodeResult.withOrder (r : DecodeResult) (le : Bool) : DecodeResult :=
  { r with info := { r.info with littleEndian := le } }

/-- The token loop does not look at the order. -/
theorem decodeTokens_withOrder (outCap : Nat) (s out : Bytes) (info : Codec11Info) (le : Bool) :
    decodeTokens outCap s out { info with littleEndian := le } =
      (decodeTokens outCap s out info).withOrder le := by
  fun_induction decodeTokens outCap s out info with
  | case1 out info =>
    rw [decodeTokens]
    rfl
  | case2 out info b1 hb =>
    rw [decodeTokens.eq_def]
    simp only [if_pos hb]
    rfl
  | case3 out info b1 hb b2 s length index offset info' hbad =>
    rw [decodeTokens.eq_def]
    simp only [if_pos hb]
    exact if_pos hbad
  | case4 out info b1 hb b2 s length index offset info' hgood hfull =>
    rw [decodeTokens.eq_def]
    simp only [if_pos hb]
    exact (if_neg hgood).trans (if_pos hfull)
  | case5 out info b1 hb b2 s length index offset info' hgood hroom ih =>
    rw [decodeTokens.eq_def]
    simp only [if_pos hb]
    exact (if_neg hgood).trans ((if_neg hroom).trans ih)
  | case6 out info b1 s hb count info' hshort =>
    rw [decodeTokens.eq_def]
    simp only [if_neg hb]
    exact if_pos hshort
  | case7 out info b1 s hb count info' hlong hfull =>
    rw [decodeTokens.eq_def]
    simp only [if_neg hb]
    exact (if_neg hlong).trans (if_pos hfull)
  | case8 out info b1 s hb count info' hlong hroom ih =>
    rw [decodeTokens.eq_def]
    simp only [if_neg hb]
    exact (if_neg hlong).trans ((if_neg hroom).trans ih)

/-- The loop returns the order it was given. -/
theorem decodeTokens_littleEndian (outCap : Nat) (s out : Bytes) (info : Codec11Info) :
    (decodeTokens outCap s out info).info.littleEndian = info.littleEndian :=
  congrArg (fun r => r.info.littleEndian) (decodeTokens_withOrder outCap s out info info.littleEndian)

theorem verifyChecksum_info (r : DecodeResult) : (verifyChecksum r).info = r.info := by
  unfold verifyChecksum
  split_ifs <;> rfl

theorem decodeBody_littleEndian (payload : Bytes) (outCap : Nat) (le : Bool) :
    (decodeBody payload outCap le).info.littleEndian = le := by
  unfold decodeBody
  dsimp only
  split_ifs with hrange hshort hfull
  · rfl
  · rfl
  · rfl
  · rw [decodeStream, verifyChecksum_info, decodeTokens_littleEndian]

theorem verifyChecksum_withOrder (r : DecodeResult) (le : Bool) :
    verifyChecksum (r.withOrder le) = (verifyChecksum r).withOrder le := by
  unfold verifyChecksum DecodeResult.withOrder
  dsimp only
  split_ifs <;> rfl

theorem decodeStream_swapHeader {payload : Bytes} (hlen : 136 ≤ payload.length) (outCap : Nat)
    (info : Codec11Info) (le : Bool) :
    decodeStream (swapHeader payload) outCap { info with littleEndian := le } =
      (decodeStream payload outCap info).withOrder le := by
  unfold decodeStream
  dsimp only
  rw [List.drop_take, List.drop_take, length_swapHeader hlen, drop_swapHeader hlen (le_refl 136),
    drop_swapHeader hlen (by omega), ← verifyChecksum_withOrder, ← decodeTokens_withOrder]

/-- Behind the magic, the swapped payload is read like the other order. -/
theorem decodeBody_swapHeader {payload : Bytes} (hlen : 140 ≤ payload.length) (outCap : Nat)
    (le : Bool) :
    decodeBody (swapHeader payload) outCap le = (decodeBody payload outCap (!le)).withOrder le := by
  have hlen' : 136 ≤ payload.length := by omega
  unfold decodeBody
  dsimp only
  rw [length_swapHeader hlen', rd32_swapHeader_rawLen hlen', rdTable_swapHeader hlen',
    checksum_swapHeader hlen' (by omega), rd32_swapHeader_behind hlen' (by omega)]
  split_ifs with hrange hshort hfull
  · rfl
  · rfl
  · rfl
  · rw [← decodeStream_swapHeader hlen']

/-- The decoder does not care about the byte order of the header.  Reversing
the magic, the raw length and the table entries in place, with everything else
as it is, gives the same code, the same output and the same `info`, except for
`little_endian` when there is a magic to read it from. -/
theorem codec11Decode_swapHeader (payload : Bytes) (outCap : Nat) (hlen : 136 ≤ payload.length) :
    let r := codec11Decode payload outCap
    let r' := codec11Decode (swapHeader payload) outCap
    r'.rc = r.rc ∧ r'.out.length = r.out.length ∧ r'.out = r.out ∧
      r'.info = { r.info with
        littleEndian :=
          if MagicRecognised payload then !r.info.littleEndian else r.info.littleEndian } := by
  intro r r'
  have hsame (hr : r' = r) (hmagic : ¬MagicRecognised payload) : r'.rc = r.rc ∧
      r'.out.length = r.out.length ∧ r'.out = r.out ∧
      r'.info = { r.info with
        littleEndian :=
          if MagicRecognised payload then !r.info.littleEndian else r.info.littleEndian } := by
    rw [hr, if_neg hmagic]
    exact ⟨rfl, rfl, rfl, rfl⟩
  have hlength := length_swapHeader hlen
  by_cases hshort : payload.length < 136 + 4
  · apply hsame
    · show codec11Decode (swapHeader payload) outCap = codec11Decode payload outCap
      rw [codec11Decode, codec11Decode, if_pos (hlength.trans_lt hshort), if_pos hshort]
    · intro h
      exact absurd h.1 (by omega)
  have hlong : 140 ≤ payload.length := by omega
  by_cases hmagic : MagicRecognised payload
  · obtain ⟨le, hle⟩ : ∃ le, rd32 payload 0 le = CODEC11_MAGIC := by
      rcases hmagic.2 with h | h
      · exact ⟨true, h⟩
      · exact ⟨false, h⟩
    have hle' : rd32 (swapHeader payload) 0 (!le) = CODEC11_MAGIC := by
      rw [rd32_swapHeader_magic hlen, Bool.not_not, hle]
    have hr : r = decodeBody payload outCap le := codec11Decode_eq_decodeBody outCap hlong hle
    have hr' : r' = r.withOrder (!le) := by
      have hbody := codec11Decode_eq_decodeBody outCap (hlong.trans_eq hlength.symm) hle'
      rw [decodeBody_swapHeader hlong, Bool.not_not, ← hr] at hbody
      exact hbody
    have horder : r.info.littleEndian = le := by
      rw [hr]
      exact decodeBody_littleEndian payload outCap le
    rw [hr', if_pos hmagic, horder]
    exact ⟨rfl, rfl, rfl, rfl⟩
  · have hno (le : Bool) : rd32 payload 0 le ≠ CODEC11_MAGIC := by
      intro h
      cases le with
      | true => exact hmagic ⟨hlong, .inl h⟩
      | false => exact hmagic ⟨hlong, .inr h⟩
    refine hsame ?_ hmagic
    show codec11Decode (swapHeader payload) outCap = codec11Decode payload outCap
    rw [codec11Decode, codec11Decode, hlength, rd32_swapHeader_magic hlen,
      rd32_swapHeader_magic hlen, if_neg (hno _), if_neg (hno _), if_neg (hno _), if_neg (hno _)]

/-- A payload of 150 bytes that begins with the big-endian magic. -/
theorem codec11Decode_swapHeader_bigEndian :
    let payload : Bytes := [0x09, 0xAB, 0xCD, 0xEF] ++ List.replicate 146 0
    let r := codec11Decode payload 0
    let r' := codec11Decode (swapHeader payload) 0
    r'.rc = r.rc ∧ r'.out.length = r.out.length ∧ r'.out = r.out ∧
      r'.info = { r.info with
        littleEndian :=
          if MagicRecognised payload then !r.info.littleEndian else r.info.littleEndian } :=
  codec11Decode_swapHeader ([0x09, 0xAB, 0xCD, 0xEF] ++ List.replicate 146 0) 0 (by simp)

end Airbridge.Qpdl
