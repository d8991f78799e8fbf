import Airbridge.Qpdl.Codec11

/-!
# Band compression 0x11: the encoder

`m2022_codec11_encode` (`codec11.c`) with its match search and its size bound.
The macro `NEED` and the bytes written behind it are one step, `put`: it
returns the longer output, or the output as it was when the bytes do not fit.
-/

namespace Airbridge.Qpdl

/-! ## The match search -/

/-- The loop of `match_len` with `room = max - n` steps left. -/
def matchLenLoop (band : Bytes) (p s : Nat) : Nat → Nat → Nat
  | 0, n => n
  | room + 1, n =>
    if byteAt band (p + n) = byteAt band (s + n) then matchLenLoop band p s room (n + 1) else n

/-- Bytes matching between `pos` and `pos - d`, at most `max`. -/
def matchLen (band : Bytes) (pos d max : Nat) : Nat := matchLenLoop band pos (pos - d) max 0

/-- The cheap rejection: a candidate at `s` only wins if it matches where the
best one stopped. -/
def rejects (band : Bytes) (p s best : Nat) : Bool :=
  if best > 0 then byteAt band (s + best) != byteAt band (p + best)
  else byteAt band s != byteAt band p || byteAt band (s + 1) != byteAt band (p + 1) ||
    byteAt band (s + 2) != byteAt band (p + 2)

/-- The loop over the table from slot `i` on. -/
def longestMatchLoop (band : Bytes) (pos max : Nat) : List UInt16 → Nat → Nat → Nat → Nat × Nat
  | [], _, best, index => (best, index)
  | t :: ts, i, best, index =>
    let d := t.toNat
    if d = 0 ∨ d > pos then longestMatchLoop band pos max ts (i + 1) best index
    else if rejects band pos (pos - d) best then longestMatchLoop band pos max ts (i + 1) best index
    else
      let n := matchLen band pos d max
      if n > best then
        if n = max then (n, i) else longestMatchLoop band pos max ts (i + 1) n i
      else longestMatchLoop band pos max ts (i + 1) best index

/-- The longest match at `pos` and its table slot; the length is 0 when no
distance gives 3 bytes, and then the slot means nothing. -/
def longestMatch (band : Bytes) (pos : Nat) (table : Table) : Nat × Nat :=
  let max := if band.length - pos > 514 then 514 else band.length - pos
  if max < 3 then (0, 0)
  else
    let m := longestMatchLoop band pos max table.entries 0 0 0
    (if m.1 ≥ 3 then m.1 else 0, m.2)

/-! ## The token stream -/

/-- A literal token: the count less one, then the bytes. -/
def literalBytes (run : Bytes) : Bytes := (run.length - 1).toUInt8 :: run

/-- A match token of length `m`. -/
def matchBytes (m index : Nat) : Bytes :=
  [(0x80 ||| ((m - 3) &&& 0x7F)).toUInt8, ((((m - 3) >>> 7) <<< 6) ||| index).toUInt8]

/-- `NEED` and the bytes written behind it. -/
def put (outCap : Nat) (out chunk : Bytes) : Except Bytes Bytes :=
  if outCap - out.length < chunk.length then .error out else .ok (out ++ chunk)

/-- The loop that writes the literals from `litStart` up to `pos`. -/
def putLiterals (outCap : Nat) (band out : Bytes) (litStart pos : Nat) : Except Bytes Bytes :=
  if litStart < pos then
    let count := if pos - litStart > 128 then 128 else pos - litStart
    do
      let out ← put outCap out (literalBytes ((band.drop litStart).take count))
      putLiterals outCap band out (litStart + count) pos
  else .ok out
termination_by pos - litStart
decreasing_by
  split <;> omega

/-- The main loop.  It returns the output and where the last literals start. -/
def putTokens (outCap : Nat) (band : Bytes) (table : Table) (out : Bytes) (pos litStart : Nat) :
    Except Bytes (Bytes × Nat) :=
  if pos < band.length then
    let m := longestMatch band pos table
    if _hm : m.1 = 0 then putTokens outCap band table out (pos + 1) litStart
    else do
      let out ← putLiterals outCap band out litStart pos
      let out ← put outCap out (matchBytes m.1 m.2)
      putTokens outCap band table out (pos + m.1) (pos + m.1)
  else .ok (out, litStart)
termination_by band.length - pos
decreasing_by
  · omega
  · have : (longestMatch band pos table).1 ≠ 0 := _hm
    omega

/-- The raw prefix grows until the first match, for at most `room` bytes. -/
def rawPrefix (band : Bytes) (table : Table) : Nat → Nat → Nat
  | 0, raw => raw
  | room + 1, raw =>
    if (longestMatch band raw table).1 = 0 then rawPrefix band table room (raw + 1) else raw

def rawLength (band : Bytes) (table : Table) : Nat :=
  let raw := if band.length < 64 then band.length else 64
  let rawMax := if band.length < 128 then band.length else 128
  rawPrefix band table (rawMax - raw) raw

/-- The 136 header bytes. -/
def codec11Header (raw : Nat) (table : Table) : Bytes :=
  Word.le32 CODEC11_MAGIC ++ Word.le32 (UInt32.ofNat raw) ++ table.entries.flatMap Word.le16

/-- What an encode returns: the code and the first `*out_len` bytes of the
output buffer. -/
structure EncodeResult where
  rc : Int
  out : Bytes
deriving Repr, DecidableEq

/-- The body of the encoder between the argument checks and the return. -/
def encodePayload (band : Bytes) (table : Table) (outCap : Nat) : Except Bytes Bytes := do
  let raw := rawLength band table
  let out ← put outCap [] (codec11Header raw table ++ band.take raw)
  let (out, litStart) ← putTokens outCap band table out raw raw
  let out ← putLiterals outCap band out litStart band.length
  put outCap out (Word.be32 (checksum out))

def codec11Encode (band : Bytes) (table : Table) (outCap : Nat) : EncodeResult :=
  match encodePayload band table outCap with
  | .error out => ⟨EOVERFLOW, out⟩
  | .ok out => ⟨OK, out⟩

/-- The largest payload for a band of `len` bytes. -/
def codec11EncodeBound (len : Nat) : Nat := 136 + len + (len + 128 - 1) / 128 + 4

end Airbridge.Qpdl
