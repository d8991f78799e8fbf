import Airbridge.Lib.CString
import Airbridge.Lib.Word
import Airbridge.Raster.Convert

/-!
# CUPS raster headers

The header of a CUPS raster file (`cupsraster.c`): a sync word of 4 bytes,
which announces the byte order, and a page header of 1796 bytes.  All of its
integers are independent 32-bit values.
-/

namespace Airbridge.Raster

open Airbridge.Qpdl (Bytes byteAt byteAt_append ascii)

abbrev CUPSRASTER_HEADER_BYTES : Nat := 1800

/-- `m2022_cupsraster_header_t`. -/
structure CupsRasterHeader where
  width : UInt32
  height : UInt32
  bitsPerColor : UInt32
  bitsPerPixel : UInt32
  bytesPerLine : UInt32
  colorSpace : UInt32
  xDpi : UInt32
  yDpi : UInt32
  numCopies : UInt32
  littleEndian : Bool
  compressed : Bool
  pageSizeName : CString
deriving Repr, DecidableEq

def rd32 (d : Bytes) (off : Nat) (le : Bool) : UInt32 :=
  if le then Word.ofLe32 (byteAt d off) (byteAt d (off + 1)) (byteAt d (off + 2)) (byteAt d (off + 3))
  else Word.ofBe32 (byteAt d off) (byteAt d (off + 1)) (byteAt d (off + 2)) (byteAt d (off + 3))

/-- The fields of a header in a byte order. -/
def rasterHeaderFields (d : Bytes) (le : Bool) : CupsRasterHeader where
  width := rd32 d 376 le
  height := rd32 d 380 le
  bitsPerColor := rd32 d 388 le
  bitsPerPixel := rd32 d 392 le
  bytesPerLine := rd32 d 396 le
  colorSpace := rd32 d 404 le
  xDpi := rd32 d 280 le
  yDpi := rd32 d 284 le
  numCopies := rd32 d 344 le
  littleEndian := le
  compressed := byteAt d (if le then 0 else 3) = 50
  pageSizeName := ((d.drop 1736).take 63).takeWhile fun c => c != 0

/-- The byte order of a sync word. -/
def syncOrder (sync : Bytes) : Option Bool :=
  if sync = ascii "RaS2" ∨ sync = ascii "RaS3" then some false
  else if sync = ascii "2SaR" ∨ sync = ascii "3SaR" then some true
  else none

/-- `m2022_cupsraster_parse_header`. -/
def cupsrasterParseHeader (d : Bytes) : Except Int CupsRasterHeader :=
  if d.length < CUPSRASTER_HEADER_BYTES then .error (-1)
  else match syncOrder (d.take 4) with
  | none => .error (-2)
  | some le =>
    let h := rasterHeaderFields d le
    if h.width = 0 ∨ h.height = 0 ∨ h.bytesPerLine = 0 then .error (-3) else .ok h

/-- `m2022_cupsraster_pixel_format`. -/
def cupsrasterPixelFormat (h : CupsRasterHeader) : Option PixelFormat :=
  if h.bitsPerPixel = 8 ∧ (h.colorSpace = 18 ∨ h.colorSpace = 0) then some .sgray8
  else if h.bitsPerPixel = 8 ∧ h.colorSpace = 3 then some .black8
  else if h.bitsPerPixel = 1 ∧ h.colorSpace = 3 then some .black1
  else if h.bitsPerPixel = 24 ∧ (h.colorSpace = 19 ∨ h.colorSpace = 1) then some .srgb24
  else none

/-- A header that is accepted has a size and a stride. -/
theorem cupsrasterParseHeader_ok {d : Bytes} {h : CupsRasterHeader}
    (hok : cupsrasterParseHeader d = .ok h) :
    h.width.toNat ≠ 0 ∧ h.height.toNat ≠ 0 ∧ h.bytesPerLine.toNat ≠ 0 := by
  have hne {v : UInt32} (hv : v ≠ 0) : v.toNat ≠ 0 := fun h0 => hv (UInt32.toNat_inj.mp h0)
  unfold cupsrasterParseHeader at hok
  split_ifs at hok
  split at hok
  · exact absurd hok (by simp)
  dsimp only at hok
  split_ifs at hok with hzero
  obtain rfl := Except.ok.inj hok
  simp only [not_or] at hzero
  exact ⟨hne hzero.1, hne hzero.2.1, hne hzero.2.2⟩

/-! ## What a header is read from -/

/-- The pixels behind a header are not looked at. -/
theorem cupsrasterParseHeader_append {header tail : Bytes}
    (h : header.length = CUPSRASTER_HEADER_BYTES) :
    cupsrasterParseHeader (header ++ tail) = cupsrasterParseHeader header := by
  have hheader : header.length = 1800 := h
  have hword {off : Nat} (hoff : off + 4 ≤ 1800) (le : Bool) :
      rd32 (header ++ tail) off le = rd32 header off le := by
    unfold rd32
    rw [byteAt_append tail (by omega), byteAt_append tail (by omega), byteAt_append tail (by omega),
      byteAt_append tail (by omega)]
  have hname : ((header ++ tail).drop 1736).take 63 = (header.drop 1736).take 63 := by
    rw [List.drop_append_of_le_length (by omega), List.take_append_of_le_length (by simp [hheader])]
  have hfields (le : Bool) : rasterHeaderFields (header ++ tail) le = rasterHeaderFields header le := by
    unfold rasterHeaderFields
    rw [hword (by decide), hword (by decide), hword (by decide), hword (by decide),
      hword (by decide), hword (by decide), hword (by decide), hword (by decide),
      hword (by decide), hname, byteAt_append tail (by split_ifs <;> omega)]
  have hlen : ¬(header ++ tail).length < CUPSRASTER_HEADER_BYTES := by
    rw [List.length_append, hheader]
    exact Nat.not_lt.mpr (Nat.le_add_right 1800 _)
  have hsync : (header ++ tail).take 4 = header.take 4 :=
    List.take_append_of_le_length (by omega)
  unfold cupsrasterParseHeader
  rw [if_neg hlen, if_neg (Nat.not_lt.mpr (Nat.le_of_eq h.symm)), hsync]
  simp only [hfields]

end Airbridge.Raster
