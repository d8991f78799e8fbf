import Airbridge.Lib.Bits
import Airbridge.Lib.Lz77
import Airbridge.Qpdl.Records

/-!
# Band compression 0x11: the decoder

`m2022_codec11_decode` (`codec11.c`).  A payload is the magic, the raw length
`N`, 64 distances, `N` raw bytes, a token stream and a checksum.  The magic,
the raw length and the table share one byte order, the checksum is
big-endian.

The output buffer is the list of bytes written so far, so `*out_len` is its
length; the cursor into the token stream is the list of stream bytes left.
The macros are written out: the header has 136 bytes, the checksum 4, a table
64 entries, the raw length is at most 128, a literal token carries at most 128
bytes and a match is at most 514 bytes long.
-/

namespace Airbridge.Qpdl

abbrev CODEC11_MAGIC : UInt32 := 0x09ABCDEF

/-- The 64 distances of a payload. -/
structure Table where
  entries : List UInt16
  length_eq : entries.length = 64
deriving Repr, DecidableEq

/-- The distance in slot `i`. -/
def Table.dist (table : Table) (i : Nat) : Nat := (table.entries.getD i 0).toNat

/-- A table of zeros. -/
def Table.zero : Table := ⟨List.replicate 64 0, rfl⟩

/-- The sum of the bytes in 32 bits. -/
def checksum (bytes : Bytes) : UInt32 := bytes.foldl (fun sum b => sum + b.toUInt32) 0

/-- `m2022_codec11_info_t`. -/
structure Codec11Info where
  littleEndian : Bool := false
  rawLen : UInt32 := 0
  table : Table := .zero
  checksumStored : UInt32 := 0
  checksumComputed : UInt32 := 0
  streamLen : Nat := 0
  literalTokens : Nat := 0
  matchTokens : Nat := 0
  maxLiteral : Nat := 0
  maxMatch : Nat := 0
  maxIndex : Nat := 0
deriving Repr, DecidableEq

/-- What a decode returns: the code, the first `*out_len` bytes of the output
buffer, and `*info`. -/
structure DecodeResult where
  rc : Int
  out : Bytes
  info : Codec11Info
deriving Repr, DecidableEq

def rd32 (p : Bytes) (i : Nat) (le : Bool) : UInt32 :=
  if le then Word.ofLe32 (byteAt p i) (byteAt p (i + 1)) (byteAt p (i + 2)) (byteAt p (i + 3))
  else Word.ofBe32 (byteAt p i) (byteAt p (i + 1)) (byteAt p (i + 2)) (byteAt p (i + 3))

def rd16 (p : Bytes) (i : Nat) (le : Bool) : UInt16 :=
  if le then Word.ofLe16 (byteAt p i) (byteAt p (i + 1))
  else Word.ofBe16 (byteAt p i) (byteAt p (i + 1))

/-- The table of a payload. -/
def rdTable (payload : Bytes) (le : Bool) : Table :=
  ⟨(List.range 64).map fun i => rd16 payload (8 + 2 * i) le, by simp⟩

/-- The statistics of a match token. -/
def Codec11Info.countMatch (info : Codec11Info) (length index : Nat) : Codec11Info :=
  { info with
    matchTokens := info.matchTokens + 1
    maxMatch := if length > info.maxMatch then length else info.maxMatch
    maxIndex := if index > info.maxIndex then index else info.maxIndex }

/-- The statistics of a literal token. -/
def Codec11Info.countLiteral (info : Codec11Info) (count : Nat) : Codec11Info :=
  { info with
    literalTokens := info.literalTokens + 1
    maxLiteral := if count > info.maxLiteral then count else info.maxLiteral }

/-- The loop `while (s < end)`; `s` is the rest of the token stream. -/
def decodeTokens (outCap : Nat) (s out : Bytes) (info : Codec11Info) : DecodeResult :=
  match s with
  | [] => ⟨OK, out, info⟩
  | b1 :: s =>
    if b1 &&& 0x80 ≠ 0 then
      match s with
      | [] => ⟨ETRUNCATED, out, info⟩
      | b2 :: s =>
        let length := (b1 &&& 0x7F).toNat + ((b2 &&& 0xC0).toNat <<< 1) + 3
        let index := (b2 &&& 0x3F).toNat
        let offset := info.table.dist index
        let info := info.countMatch length index
        if offset = 0 ∨ offset > out.length then ⟨EOFFSET, out, info⟩
        else if outCap - out.length < length then ⟨EOVERFLOW, out, info⟩
        else decodeTokens outCap s (Lz77.copyBack offset length out) info
    else
      let count := b1.toNat + 1
      let info := info.countLiteral count
      if s.length < count then ⟨ETRUNCATED, out, info⟩
      else if outCap - out.length < count then ⟨EOVERFLOW, out, info⟩
      else decodeTokens outCap (s.drop count) (out ++ s.take count) info
termination_by s.length
decreasing_by
  · simp only [List.length_cons]
    omega
  · rw [List.length_drop, List.length_cons]
    omega

/-- The return statement behind the token loop. -/
def verifyChecksum (r : DecodeResult) : DecodeResult :=
  if r.rc ≠ OK then r
  else if r.info.checksumComputed = r.info.checksumStored then { r with rc := OK }
  else { r with rc := ECHECKSUM }

/-- The part of the decoder behind the header: `info` holds what it says. -/
def decodeStream (payload : Bytes) (outCap : Nat) (info : Codec11Info) : DecodeResult :=
  let rawLen := info.rawLen.toNat
  let s := (payload.take (payload.length - 4)).drop (136 + rawLen)
  let info := { info with streamLen := s.length }
  verifyChecksum (decodeTokens outCap s ((payload.drop 136).take rawLen) info)

/-- The part of the decoder behind the recognised magic. -/
def decodeBody (payload : Bytes) (outCap : Nat) (le : Bool) : DecodeResult :=
  let info : Codec11Info :=
    { littleEndian := le, rawLen := rd32 payload 4 le, table := rdTable payload le }
  let len := payload.length
  if info.rawLen.toNat > 128 then ⟨ERAWLEN, [], info⟩
  else if len - 4 - 136 < info.rawLen.toNat then ⟨ETRUNCATED, [], info⟩
  else
    let info := { info with
      checksumComputed := checksum (payload.take (len - 4))
      checksumStored := rd32 payload (len - 4) false }
    if info.rawLen.toNat > outCap then ⟨EOVERFLOW, [], info⟩
    else decodeStream payload outCap info

def codec11Decode (payload : Bytes) (outCap : Nat) : DecodeResult :=
  if payload.length < 136 + 4 then ⟨ETRUNCATED, [], {}⟩
  else if rd32 payload 0 true = CODEC11_MAGIC then decodeBody payload outCap true
  else if rd32 payload 0 false = CODEC11_MAGIC then decodeBody payload outCap false
  else ⟨EMAGIC, [], {}⟩

/-! ## The bits of a token -/

/-- The top bit of the first byte tells a match from a literal. -/
theorem and_0x80_ne_zero (b : UInt8) : b &&& 0x80 ≠ 0 ↔ 128 ≤ b.toNat :=
  Bits.forall_byte (P := fun b => b &&& 0x80 ≠ 0 ↔ 128 ≤ b.toNat) (by decide +kernel) b

theorem toNat_and_0x7F (b : UInt8) : (b &&& 0x7F).toNat = b.toNat % 128 :=
  Bits.forall_byte (P := fun b => (b &&& 0x7F).toNat = b.toNat % 128) (by decide +kernel) b

theorem toNat_and_0xC0 (b : UInt8) : (b &&& 0xC0).toNat <<< 1 = b.toNat / 64 * 128 :=
  Bits.forall_byte (P := fun b => (b &&& 0xC0).toNat <<< 1 = b.toNat / 64 * 128) (by decide +kernel) b

theorem toNat_and_0x3F (b : UInt8) : (b &&& 0x3F).toNat = b.toNat % 64 :=
  Bits.forall_byte (P := fun b => (b &&& 0x3F).toNat = b.toNat % 64) (by decide +kernel) b

/-- The 32-bit sum is the sum of the byte values modulo `2 ^ 32`. -/
theorem toNat_checksum (bytes : Bytes) :
    (checksum bytes).toNat = (bytes.map UInt8.toNat).sum % 2 ^ 32 := by
  have haux : ∀ (bs : Bytes) (sum : UInt32),
      (bs.foldl (fun sum b => sum + b.toUInt32) sum).toNat
        = (sum.toNat + (bs.map UInt8.toNat).sum) % 2 ^ 32 := by
    intro bs
    induction bs with
    | nil =>
      intro sum
      have := sum.toNat_lt
      simp only [List.foldl_nil, List.map_nil, List.sum_nil]
      omega
    | cons b bs ih =>
      intro sum
      rw [List.foldl_cons, ih, UInt32.toNat_add, UInt8.toNat_toUInt32, List.map_cons, List.sum_cons]
      omega
  simpa [checksum] using haux bytes 0

end Airbridge.Qpdl
