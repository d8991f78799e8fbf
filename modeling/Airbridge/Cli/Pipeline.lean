import Airbridge.Common.Fileio
import Airbridge.Lib.Memory
import Airbridge.Raster.Cupsraster

/-!
# The page loader of the commands

`cli_raster_open` (`cli/pipeline.c`) loads a PGM, a PBM or a CUPS raster, and
the commands then read its rows, one at a time, `line_bytes` apart.  The size
check of a CUPS raster covers as many bytes per row as the header claims,
which need not be as many as its pixels take.
-/

namespace Airbridge.Cli

open Airbridge.Qpdl Airbridge.Raster Airbridge.Common Memory
open CString (fit decimal)

/-! ## Loading -/

/-- `cli_raster_t`; `pixels` is an offset into the data. -/
structure CliRaster where
  data : Bytes
  width : UInt32
  height : UInt32
  bilevel : Bool := false
  fmt : PixelFormat := .sgray8
  lineBytes : UInt32
  pixels : Nat
  xDpi : UInt32 := 0
  yDpi : UInt32 := 0
  pageSizeName : CString := []
  description : CString
deriving Repr, DecidableEq

/-- `%ux%u`. -/
def sizeText (width height : UInt32) : CString :=
  decimal width.toNat ++ ascii "x" ++ decimal height.toNat

/-- The raster of an anymap. -/
def pnmRaster (data : Bytes) (pnm : Pnm) : CliRaster :=
  if pnm.type = 4 then
    { data := data
      width := pnm.width
      height := pnm.height
      bilevel := true
      lineBytes := (pnm.width + 7) / 8
      pixels := pnm.pixels
      description := fit 160 (ascii "PBM " ++ sizeText pnm.width pnm.height ++ ascii ", 1 = black") }
  else
    { data := data
      width := pnm.width
      height := pnm.height
      lineBytes := pnm.width
      pixels := pnm.pixels
      description := fit 160 (ascii "PGM " ++ sizeText pnm.width pnm.height ++ ascii " sGray") }

/-- The raster behind a CUPS header. -/
def cupsRaster (data : Bytes) (h : CupsRasterHeader) (fmt : PixelFormat) : CliRaster where
  data := data
  width := h.width
  height := h.height
  fmt := fmt
  lineBytes := h.bytesPerLine
  pixels := CUPSRASTER_HEADER_BYTES
  xDpi := h.xDpi
  yDpi := h.yDpi
  pageSizeName := fit 64 h.pageSizeName
  description := fit 160 (ascii "CUPS raster " ++ sizeText h.width h.height ++ ascii ", "
    ++ decimal h.bitsPerPixel.toNat ++ ascii " bpp, colour space " ++ decimal h.colorSpace.toNat
    ++ ascii ", " ++ sizeText h.xDpi h.yDpi ++ ascii " dpi, " ++ h.pageSizeName)

/-- The size that a CUPS raster must have. -/
def rasterFileBytes (h : CupsRasterHeader) : Nat :=
  (CUPSRASTER_HEADER_BYTES + h.bytesPerLine.toNat * h.height.toNat % 2 ^ 64) % 2 ^ 64

/-- `cli_raster_open` behind the reading of the file; it returns 0 with a
raster and 2 without. -/
def rasterOpen (data : Bytes) : Option CliRaster :=
  if data.length > 2 ∧ byteAt data 0 = 80 then
    match pnmParse data with
    | .error _ => none
    | .ok pnm => if pnm.type ≠ 4 ∧ pnm.type ≠ 5 then none else some (pnmRaster data pnm)
  else
    match cupsrasterParseHeader data with
    | .error _ => none
    | .ok h =>
      if h.compressed then none
      else match cupsrasterPixelFormat h with
      | none => none
      | some fmt => if data.length < rasterFileBytes h then none else some (cupsRaster data h fmt)

/-- `cli_raster_open`. -/
def cliRasterOpen (grants : Nat → Bool) (file : GzFile) : Option CliRaster :=
  (readFile grants file).bind rasterOpen

/-! ## Rows -/

/-- The bytes a command reads for a row. -/
def CliRaster.rowBytes (r : CliRaster) : Nat :=
  if r.bilevel then (r.width.toNat + 7) / 8 else rasterLineBytes r.fmt r.width.toNat

/-- Row `y`, in the loaded data. -/
def CliRaster.row (r : CliRaster) (y : Nat) : Access :=
  ⟨r.pixels + y * r.lineBytes.toNat, r.rowBytes, r.data.length⟩

/-- Every row lies in the file. -/
def CliRaster.RowsInside (r : CliRaster) : Prop := ∀ y < r.height.toNat, (r.row y).Inside

/-- The rows lie in the file if and only if the last one does. -/
theorem rowsInside_iff {r : CliRaster} (hheight : r.height.toNat ≠ 0) :
    r.RowsInside ↔
      r.pixels + (r.height.toNat - 1) * r.lineBytes.toNat + r.rowBytes ≤ r.data.length := by
  constructor
  · intro h
    exact h (r.height.toNat - 1) (by omega)
  · intro h y hy
    have hle : y * r.lineBytes.toNat ≤ (r.height.toNat - 1) * r.lineBytes.toNat :=
      Nat.mul_le_mul_right _ (by omega)
    show r.pixels + y * r.lineBytes.toNat + r.rowBytes ≤ r.data.length
    omega

/-- The rows of an anymap lie in the file, also where the stride of a PBM wraps
in 32 bits. -/
theorem pnmRaster_rowsInside {data : Bytes} {pnm : Pnm} (hdata : data.length < 2 ^ 31)
    (h : pnmParse data = .ok pnm) : (pnmRaster data pnm).RowsInside := by
  obtain ⟨-, -, hheight, hsize⟩ := pnmParse_ok hdata h
  have hlast {n : Nat} : (pnm.height.toNat - 1) * n + n = n * pnm.height.toNat := by
    obtain ⟨k, hk⟩ := Nat.exists_eq_succ_of_ne_zero hheight
    rw [hk, Nat.succ_sub_one, Nat.succ_eq_add_one, Nat.mul_add_one, Nat.mul_comm]
  unfold pnmRaster
  by_cases htype : pnm.type = 4
  · rw [if_pos htype] at hsize ⊢
    rw [rowsInside_iff hheight]
    dsimp only [CliRaster.rowBytes]
    rw [if_pos rfl]
    have hstride : ((pnm.width + 7) / 8).toNat ≤ (pnm.width.toNat + 7) / 8 := by
      rw [UInt32.toNat_div, UInt32.toNat_add]
      exact Nat.div_le_div_right (Nat.mod_le _ _)
    have hrows := Nat.mul_le_mul_left (pnm.height.toNat - 1) hstride
    have heq := hlast (n := (pnm.width.toNat + 7) / 8)
    omega
  · rw [if_neg htype] at hsize ⊢
    rw [rowsInside_iff hheight]
    dsimp only [CliRaster.rowBytes, rasterLineBytes]
    rw [if_neg Bool.false_ne_true]
    have heq := hlast (n := pnm.width.toNat)
    omega

/-- The size check of a CUPS raster does not wrap. -/
theorem rasterFileBytes_eq (h : CupsRasterHeader) :
    rasterFileBytes h = CUPSRASTER_HEADER_BYTES + h.bytesPerLine.toNat * h.height.toNat := by
  have hbpl := h.bytesPerLine.toNat_lt
  have hheight := h.height.toNat_lt
  have hle : h.bytesPerLine.toNat * h.height.toNat ≤ (2 ^ 32 - 1) * (2 ^ 32 - 1) :=
    Nat.mul_le_mul (by omega) (by omega)
  unfold rasterFileBytes
  rw [Nat.mod_eq_of_lt (show h.bytesPerLine.toNat * h.height.toNat < 2 ^ 64 by omega)]
  exact Nat.mod_eq_of_lt (show 1800 + _ < 2 ^ 64 by omega)

/-- A row of the pixels of a CUPS raster takes no more than its stride and what
the file has behind the last row. -/
def RowsFit (data : Bytes) : Prop :=
  ∀ h fmt, cupsrasterParseHeader data = .ok h → cupsrasterPixelFormat h = some fmt →
    rasterLineBytes fmt h.width.toNat ≤
      h.bytesPerLine.toNat +
        (data.length - (CUPSRASTER_HEADER_BYTES + h.bytesPerLine.toNat * h.height.toNat))

theorem cupsRaster_rowsInside {data : Bytes} {h : CupsRasterHeader} {fmt : PixelFormat}
    (hok : cupsrasterParseHeader data = .ok h) (hfmt : cupsrasterPixelFormat h = some fmt)
    (hsize : ¬data.length < rasterFileBytes h) :
    (cupsRaster data h fmt).RowsInside ↔ RowsFit data := by
  obtain ⟨-, hheight, -⟩ := cupsrasterParseHeader_ok hok
  have hlast : (h.height.toNat - 1) * h.bytesPerLine.toNat + h.bytesPerLine.toNat =
      h.bytesPerLine.toNat * h.height.toNat := by
    obtain ⟨k, hk⟩ := Nat.exists_eq_succ_of_ne_zero hheight
    rw [hk, Nat.succ_sub_one, Nat.succ_eq_add_one, Nat.mul_add_one, Nat.mul_comm]
  have hheader : CUPSRASTER_HEADER_BYTES = 1800 := rfl
  rw [rasterFileBytes_eq] at hsize
  rw [rowsInside_iff hheight]
  show CUPSRASTER_HEADER_BYTES + (h.height.toNat - 1) * h.bytesPerLine.toNat +
    rasterLineBytes fmt h.width.toNat ≤ data.length ↔ _
  constructor
  · intro hle h' fmt' hok' hfmt'
    obtain rfl := Except.ok.inj (hok.symm.trans hok')
    obtain rfl := Option.some_inj.mp (hfmt.symm.trans hfmt')
    omega
  · intro hfit
    have hle := hfit h fmt hok hfmt
    omega

/-- A raster comes from an anymap or from behind a CUPS header. -/
theorem rasterOpen_cases {data : Bytes} {r : CliRaster} (h : rasterOpen data = some r) :
    (byteAt data 0 = 80 ∧ ∃ pnm, pnmParse data = .ok pnm ∧ r = pnmRaster data pnm) ∨
      (byteAt data 0 ≠ 80 ∧ ∃ header fmt, cupsrasterParseHeader data = .ok header ∧
        cupsrasterPixelFormat header = some fmt ∧ ¬data.length < rasterFileBytes header ∧
        r = cupsRaster data header fmt) := by
  unfold rasterOpen at h
  by_cases hpnm : data.length > 2 ∧ byteAt data 0 = 80
  · rw [if_pos hpnm] at h
    cases hparse : pnmParse data with
    | error e =>
      rw [hparse] at h
      exact absurd h (by simp)
    | ok pnm =>
      rw [hparse] at h
      dsimp only at h
      split_ifs at h
      exact .inl ⟨hpnm.2, pnm, rfl, (Option.some_inj.mp h).symm⟩
  · rw [if_neg hpnm] at h
    cases hparse : cupsrasterParseHeader data with
    | error e =>
      rw [hparse] at h
      exact absurd h (by simp)
    | ok header =>
      rw [hparse] at h
      dsimp only at h
      by_cases hcompressed : header.compressed = true
      · rw [if_pos hcompressed] at h
        exact absurd h (by simp)
      rw [if_neg hcompressed] at h
      cases hfmt : cupsrasterPixelFormat header with
      | none =>
        rw [hfmt] at h
        exact absurd h (by simp)
      | some fmt =>
        rw [hfmt] at h
        dsimp only at h
        split_ifs at h with hsize
        have hfirst : byteAt data 0 ≠ 80 := by
          have hheader : CUPSRASTER_HEADER_BYTES = 1800 := rfl
          rw [rasterFileBytes_eq] at hsize
          exact fun hp => hpnm ⟨by omega, hp⟩
        exact .inr ⟨hfirst, header, fmt, rfl, hfmt, hsize, (Option.some_inj.mp h).symm⟩

theorem cliRasterOpen_some {grants : Nat → Bool} {file : GzFile} {r : CliRaster}
    (h : cliRasterOpen grants file = some r) :
    ∃ data, readFile grants file = some data ∧ rasterOpen data = some r ∧ data.length < 2 ^ 31 := by
  obtain ⟨data, hread, hopen⟩ := Option.bind_eq_some_iff.mp h
  exact ⟨data, hread, hopen, length_readFile hread⟩

/-- Of a file that is accepted every row lies in the file if and only if it is
an anymap, or the pixels of a row take no more than the stride of its header
and what is behind the last row. -/
theorem rows_inside_iff {grants : Nat → Bool} {file : GzFile} {data : Bytes} {r : CliRaster}
    (hread : readFile grants file = some data) (hopen : cliRasterOpen grants file = some r) :
    r.RowsInside ↔ byteAt data 0 = 80 ∨ RowsFit data := by
  obtain ⟨data', hread', hraster, hlen⟩ := cliRasterOpen_some hopen
  obtain rfl := Option.some_inj.mp (hread.symm.trans hread')
  rcases rasterOpen_cases hraster with
    ⟨hp, pnm, hparse, rfl⟩ | ⟨hp, h, fmt, hok, hfmt, hsize, rfl⟩
  · exact iff_of_true (pnmRaster_rowsInside hlen hparse) (.inl hp)
  · rw [cupsRaster_rowsInside hok hfmt hsize]
    exact (or_iff_right hp).symm

/-! ## Single rows -/

/-- The header of a raster of one row. -/
def rowHeader (width bitsPerPixel bytesPerLine colorSpace : UInt32) : Bytes :=
  ascii "RaS3" ++ List.replicate 276 0 ++ Word.be32 600 ++ Word.be32 600 ++ List.replicate 88 0
    ++ Word.be32 width ++ Word.be32 1 ++ List.replicate 4 0 ++ Word.be32 8
    ++ Word.be32 bitsPerPixel ++ Word.be32 bytesPerLine ++ List.replicate 4 0
    ++ Word.be32 colorSpace ++ List.replicate 1392 0

/-- What the header of such a raster says. -/
def rowFields (width bitsPerPixel bytesPerLine colorSpace : UInt32) : CupsRasterHeader where
  width := width
  height := 1
  bitsPerColor := 8
  bitsPerPixel := bitsPerPixel
  bytesPerLine := bytesPerLine
  colorSpace := colorSpace
  xDpi := 600
  yDpi := 600
  numCopies := 0
  littleEndian := false
  compressed := false
  pageSizeName := []

/-- A raster of one row whose file has the bytes of its stride. -/
def rowRaster (width bitsPerPixel bytesPerLine colorSpace : UInt32) : Bytes :=
  rowHeader width bitsPerPixel bytesPerLine colorSpace ++ List.replicate bytesPerLine.toNat 0

section
variable {width bitsPerPixel bytesPerLine colorSpace : UInt32}

theorem length_rowHeader : (rowHeader width bitsPerPixel bytesPerLine colorSpace).length = 1800 := by
  unfold rowHeader
  simp only [List.length_append, List.length_replicate, Word.length_be32]
  rfl

theorem length_rowRaster :
    (rowRaster width bitsPerPixel bytesPerLine colorSpace).length = 1800 + bytesPerLine.toNat := by
  rw [rowRaster, List.length_append, length_rowHeader, List.length_replicate]

/-- A raster of one row is accepted when its header is. -/
theorem rasterOpen_rowRaster {fmt : PixelFormat}
    (hparse : cupsrasterParseHeader (rowHeader width bitsPerPixel bytesPerLine colorSpace) =
      .ok (rowFields width bitsPerPixel bytesPerLine colorSpace))
    (hfmt : cupsrasterPixelFormat (rowFields width bitsPerPixel bytesPerLine colorSpace) =
      some fmt) :
    rasterOpen (rowRaster width bitsPerPixel bytesPerLine colorSpace) =
      some (cupsRaster (rowRaster width bitsPerPixel bytesPerLine colorSpace)
        (rowFields width bitsPerPixel bytesPerLine colorSpace) fmt) := by
  have hfirst : byteAt (rowRaster width bitsPerPixel bytesPerLine colorSpace) 0 = 82 := by
    rw [rowRaster, byteAt_append _ (by rw [length_rowHeader]; decide)]
    rfl
  have hpnm : ¬((rowRaster width bitsPerPixel bytesPerLine colorSpace).length > 2 ∧
      byteAt (rowRaster width bitsPerPixel bytesPerLine colorSpace) 0 = 80) := by
    rw [hfirst]
    exact fun h => absurd h.2 (by decide)
  have hheader : cupsrasterParseHeader (rowRaster width bitsPerPixel bytesPerLine colorSpace) =
      .ok (rowFields width bitsPerPixel bytesPerLine colorSpace) := by
    rw [rowRaster, cupsrasterParseHeader_append length_rowHeader, hparse]
  have hsize : ¬(rowRaster width bitsPerPixel bytesPerLine colorSpace).length <
      rasterFileBytes (rowFields width bitsPerPixel bytesPerLine colorSpace) := by
    rw [rasterFileBytes_eq, length_rowRaster]
    show ¬1800 + bytesPerLine.toNat < 1800 + bytesPerLine.toNat * 1
    omega
  unfold rasterOpen
  rw [if_neg hpnm, hheader]
  dsimp only
  rw [if_neg (show ¬(rowFields width bitsPerPixel bytesPerLine colorSpace).compressed = true from
    Bool.false_ne_true), hfmt]
  dsimp only
  rw [if_neg hsize]

/-- It can be loaded from a file of less than 2 GiB. -/
theorem exists_rowFile {fmt : PixelFormat}
    (hparse : cupsrasterParseHeader (rowHeader width bitsPerPixel bytesPerLine colorSpace) =
      .ok (rowFields width bitsPerPixel bytesPerLine colorSpace))
    (hfmt : cupsrasterPixelFormat (rowFields width bitsPerPixel bytesPerLine colorSpace) =
      some fmt) (hlt : 1800 + bytesPerLine.toNat < 2 ^ 31) :
    ∃ file, readFile (fun _ => true) file =
        some (rowRaster width bitsPerPixel bytesPerLine colorSpace) ∧
      cliRasterOpen (fun _ => true) file =
        some (cupsRaster (rowRaster width bitsPerPixel bytesPerLine colorSpace)
          (rowFields width bitsPerPixel bytesPerLine colorSpace) fmt) := by
  have hlen : (rowRaster width bitsPerPixel bytesPerLine colorSpace).length < 2 ^ 31 := by
    rw [length_rowRaster]
    exact hlt
  obtain ⟨file, hfile⟩ := exists_readFile hlen
  refine ⟨file, hfile, ?_⟩
  rw [cliRasterOpen, hfile, Option.bind_some, rasterOpen_rowRaster hparse hfmt]

end

theorem rows_inside_stride : ∃ file r,
    cliRasterOpen (fun _ => true) file = some r ∧ r.RowsInside := by
  have hparse : cupsrasterParseHeader (rowHeader 1000 8 1000 18) = .ok (rowFields 1000 8 1000 18) := by
    decide +kernel
  obtain ⟨file, hread, hopen⟩ := exists_rowFile hparse rfl (by decide)
  refine ⟨file, _, hopen, (rows_inside_iff hread hopen).mpr (.inr fun h fmt hok hfmt => ?_)⟩
  rw [rowRaster, cupsrasterParseHeader_append length_rowHeader, hparse] at hok
  obtain rfl := Except.ok.inj hok
  obtain rfl : PixelFormat.sgray8 = fmt := Option.some_inj.mp hfmt
  have hline : rasterLineBytes .sgray8 (rowFields 1000 8 1000 18).width.toNat = 1000 := rfl
  have hstride : (rowFields 1000 8 1000 18).bytesPerLine.toNat = 1000 := rfl
  rw [hline, hstride]
  exact Nat.le_add_right _ _

/-- A row of 1000 gray pixels and a stride of one byte. -/
theorem row_outside : ∃ file r, readFile (fun _ => true) file = some (rowRaster 1000 8 1 18) ∧
    cliRasterOpen (fun _ => true) file = some r ∧ ¬r.RowsInside := by
  have hparse : cupsrasterParseHeader (rowHeader 1000 8 1 18) = .ok (rowFields 1000 8 1 18) := by
    decide +kernel
  obtain ⟨file, hread, hopen⟩ := exists_rowFile hparse rfl (by decide)
  refine ⟨file, _, hread, hopen, fun hinside => ?_⟩
  have hrow : 1800 + 0 * 1 + 1000 ≤ (rowRaster 1000 8 1 18).length := hinside 0 (by decide)
  rw [length_rowRaster] at hrow
  exact absurd hrow (by decide)

end Airbridge.Cli
