import Airbridge.Lib.Word
import Mathlib.Tactic.SplitIfs

/-!
# QPDL records

The fixed-size records of a QPDL stream (`records.c`): the 17-byte page
header, the 11-byte band header and the 3-byte end-of-page record, all
big-endian.  A writer returns the bytes it puts at `out`; a parser gets the
bytes from its position on and returns the record with the bytes it consumed,
or the error code.

The size macros are written out: a page header has 17 bytes, a band header
11, an end-of-page record 3, and a band has 128 lines.
-/

namespace Airbridge.Qpdl

abbrev Bytes := List UInt8

/-- The bytes of a C string literal. -/
def ascii (s : String) : Bytes := s.toList.map fun c => c.toNat.toUInt8

/-- The bytes of a literal, from its characters. -/
theorem ascii_ofList (l : List Char) :
    ascii (String.ofList l) = l.map fun c => c.toNat.toUInt8 := by
  rw [ascii, String.toList_ofList]

theorem ascii_append (a b : String) : ascii (a ++ b) = ascii a ++ ascii b := by
  rw [ascii, String.toList_append, List.map_append]
  rfl

/-! ## Result codes -/

abbrev OK : Int := 0
/-- The data ends inside a record or token. -/
abbrev ETRUNCATED : Int := -2000
/-- A payload does not start with the magic. -/
abbrev EMAGIC : Int := -2001
/-- The raw length is above 128. -/
abbrev ERAWLEN : Int := -2002
/-- A match reaches before the start of the output. -/
abbrev EOFFSET : Int := -2003
/-- The output buffer is too small. -/
abbrev EOVERFLOW : Int := -2004
/-- The payload decoded, but the stored checksum differs. -/
abbrev ECHECKSUM : Int := -2005
/-- The record type is unknown. -/
abbrev ERECORD : Int := -2006
/-- There is no `@PJL ENTER LANGUAGE=QPDL` line. -/
abbrev ENOPJL : Int := -2007
abbrev EINVAL : Int := -2008
/-- The page is too wide or too tall. -/
abbrev ERANGE : Int := -2009
/-- The encoder call is out of order. -/
abbrev ESTATE : Int := -2010

/-! ## Record types -/

abbrev REC_PAGE : UInt8 := 0x00
abbrev REC_END_PAGE : UInt8 := 0x01
abbrev REC_END_JOB : UInt8 := 0x09
abbrev REC_BAND : UInt8 := 0x0C
abbrev COMPRESSION_0X11 : UInt8 := 0x11

/-- `m2022_qpdl_page_header_t`. -/
structure PageHeader where
  yRes100 : UInt8
  copies : UInt16
  paperCode : UInt8
  paperWidth : UInt16
  paperHeight : UInt16
  feeder : UInt8
  reservedA : UInt8
  duplex : UInt8
  tumble : UInt8
  reservedD : UInt8
  qpdlVersion : UInt8
  reservedF : UInt8
  xRes100 : UInt8
deriving Repr, DecidableEq

/-- `m2022_qpdl_band_header_t`.  `length` counts the payload bytes that
follow the header. -/
structure BandHeader where
  number : UInt8
  width : UInt16
  height : UInt16
  compression : UInt8
  length : UInt32
deriving Repr, DecidableEq

/-! ## Readers and writers -/

/-- The byte at index `i`.  Every caller has checked the length first. -/
def byteAt (p : Bytes) (i : Nat) : UInt8 := p.getD i 0

theorem byteAt_eq_getElem {p : Bytes} {i : Nat} (h : i < p.length) : byteAt p i = p[i] :=
  List.getD_eq_getElem p 0 h

theorem byteAt_append {p : Bytes} (q : Bytes) {i : Nat} (h : i < p.length) :
    byteAt (p ++ q) i = byteAt p i := by
  simp [byteAt, List.getElem?_append_left h]

theorem byteAt_append_right (a b : Bytes) (i : Nat) :
    byteAt (a ++ b) (a.length + i) = byteAt b i := by
  simp [byteAt, List.getElem?_append_right (Nat.le_add_right a.length i)]

theorem byteAt_take (p : Bytes) {i n : Nat} (h : i < n) : byteAt (p.take n) i = byteAt p i := by
  simp [byteAt, List.getElem?_take_of_lt h]

theorem byteAt_drop (p : Bytes) (i k : Nat) : byteAt (p.drop i) k = byteAt p (i + k) := by
  simp [byteAt]

def rd16be (p : Bytes) (i : Nat) : UInt16 := Word.ofBe16 (byteAt p i) (byteAt p (i + 1))

def rd32be (p : Bytes) (i : Nat) : UInt32 :=
  Word.ofBe32 (byteAt p i) (byteAt p (i + 1)) (byteAt p (i + 2)) (byteAt p (i + 3))

def parsePageHeader (p : Bytes) : Except Int (PageHeader × Nat) :=
  if p.length < 17 then .error ETRUNCATED
  else if byteAt p 0 ≠ REC_PAGE then .error ERECORD
  else .ok
    ({ yRes100 := byteAt p 1
       copies := rd16be p 2
       paperCode := byteAt p 4
       paperWidth := rd16be p 5
       paperHeight := rd16be p 7
       feeder := byteAt p 9
       reservedA := byteAt p 10
       duplex := byteAt p 11
       tumble := byteAt p 12
       reservedD := byteAt p 13
       qpdlVersion := byteAt p 14
       reservedF := byteAt p 15
       xRes100 := byteAt p 16 }, 17)

def writePageHeader (h : PageHeader) : Bytes :=
  [REC_PAGE, h.yRes100] ++ Word.be16 h.copies ++ [h.paperCode] ++ Word.be16 h.paperWidth ++
    Word.be16 h.paperHeight ++ [h.feeder, h.reservedA, h.duplex, h.tumble, h.reservedD,
      h.qpdlVersion, h.reservedF, h.xRes100]

def parseBandHeader (p : Bytes) : Except Int (BandHeader × Nat) :=
  if p.length < 11 then .error ETRUNCATED
  else if byteAt p 0 ≠ REC_BAND then .error ERECORD
  else .ok
    ({ number := byteAt p 1
       width := rd16be p 2
       height := rd16be p 4
       compression := byteAt p 6
       length := rd32be p 7 }, 11)

/-- A page header is 17 bytes long. -/
theorem parsePageHeader_consumed {p : Bytes} {h : PageHeader} {n : Nat}
    (hp : parsePageHeader p = .ok (h, n)) : n = 17 ∧ 17 ≤ p.length := by
  unfold parsePageHeader at hp
  split_ifs at hp with h1
  obtain ⟨-, rfl⟩ := Prod.mk.inj (Except.ok.inj hp)
  exact ⟨rfl, by omega⟩

/-- A band header is 11 bytes long. -/
theorem parseBandHeader_consumed {p : Bytes} {h : BandHeader} {n : Nat}
    (hp : parseBandHeader p = .ok (h, n)) : n = 11 ∧ 11 ≤ p.length := by
  unfold parseBandHeader at hp
  split_ifs at hp with h1
  obtain ⟨-, rfl⟩ := Prod.mk.inj (Except.ok.inj hp)
  exact ⟨rfl, by omega⟩

def writeBandHeader (h : BandHeader) : Bytes :=
  [REC_BAND, h.number] ++ Word.be16 h.width ++ Word.be16 h.height ++ [h.compression] ++
    Word.be32 h.length

def writeEndPage (copies : UInt16) : Bytes := REC_END_PAGE :: Word.be16 copies

@[simp] theorem length_writePageHeader (h : PageHeader) : (writePageHeader h).length = 17 := rfl

@[simp] theorem length_writeBandHeader (h : BandHeader) : (writeBandHeader h).length = 11 := rfl

@[simp] theorem length_writeEndPage (copies : UInt16) : (writeEndPage copies).length = 3 := rfl

/-! ## A parser reads what its writer wrote -/

/-- The parser of a page header undoes its writer, whatever follows. -/
theorem parsePageHeader_write (h : PageHeader) (rest : Bytes) :
    parsePageHeader (writePageHeader h ++ rest) = .ok (h, 17) := by
  have hlen : ¬(writePageHeader h ++ rest).length < 17 := by simp
  rw [parsePageHeader, if_neg hlen]
  simp [writePageHeader, byteAt, rd16be, Word.be16, Word.ofBe16_be16]

theorem parseBandHeader_write (h : BandHeader) (rest : Bytes) :
    parseBandHeader (writeBandHeader h ++ rest) = .ok (h, 11) := by
  have hlen : ¬(writeBandHeader h ++ rest).length < 11 := by simp
  rw [parseBandHeader, if_neg hlen]
  simp [writeBandHeader, byteAt, rd16be, rd32be, Word.be16, Word.be32, Word.ofBe16_be16,
    Word.ofBe32_be32]

end Airbridge.Qpdl
