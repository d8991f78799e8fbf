import Airbridge.Cli.DecodeSafety

/-!
# What a page of the decode command should show

One bitmap serves all pages.  `on_page` resets the counters of a page, but only
a written PBM clears the bitmap.  So a PBM shows what was decoded since the
latest written PBM, where it should show what was decoded since the latest page
record.  `PageLog` keeps both sets of bands beside the context, and
`PagesApart` is the condition under which the difference is not seen.
-/

namespace Airbridge.Cli

open Airbridge.Qpdl Memory

/-! ## Bitmaps of bands -/

/-- Decoded bands by number. -/
abbrev Bands := Nat → Option Bytes

namespace Bands

def empty : Bands := fun _ => none

/-- The bands of `new`, and under them those of `old`. -/
def overlay (new old : Bands) : Bands := fun k => (new k).or (old k)

def put (bands : Bands) (number : UInt8) (band : Bytes) : Bands :=
  Function.update bands number.toNat (some band)

@[simp] theorem overlay_empty (bands : Bands) : bands.overlay empty = bands := by
  funext k
  exact Option.or_none

theorem put_same (bands : Bands) (number : UInt8) (band : Bytes) :
    bands.put number band number.toNat = some band := Function.update_self _ _ _

theorem put_of_ne (bands : Bands) (band : Bytes) {number : UInt8} {k : Nat} (h : k ≠ number.toNat) :
    bands.put number band k = bands k := Function.update_of_ne h _ _

theorem put_overlay (new old : Bands) (number : UInt8) (band : Bytes) :
    (new.put number band).overlay old = (new.overlay old).put number band := by
  funext k
  by_cases h : k = number.toNat
  · subst h
    rw [overlay, put_same, put_same]
    rfl
  · rw [overlay, put_of_ne _ _ h, put_of_ne _ _ h]
    rfl

end Bands

/-- A byte of the rows of a band, white where there is no band. -/
def bandByte (band : Option Bytes) (line col : Nat) : UInt8 :=
  match band with
  | some band => ~~~byteAt band (columnIndex (col, line))
  | none => 0

/-- A byte of a page, each band at the 128 lines its number names. -/
def Bands.pageByte (bands : Bands) (line col : Nat) : UInt8 :=
  bandByte (bands (line / 128)) (line % 128) col

/-- Bytes of a row of a `P4` file. -/
def Pbm.rowBytes (f : Pbm) : Nat := (f.width.toNat + 7) / 8

/-- The file is a bitmap of this width that holds exactly these bands, at their
own positions, and is white everywhere else. -/
structure Pbm.Shows (f : Pbm) (width : UInt16) (bands : Bands) : Prop where
  width_eq : f.width = width
  length_rows : f.rows.length = f.height * f.rowBytes
  holds : ∀ k, bands k ≠ none → (k + 1) * 128 ≤ f.height
  bytes : ∀ line < f.height, ∀ col < f.rowBytes,
    byteAt f.rows (line * f.rowBytes + col) = bands.pageByte line col

/-! ## What was decoded since -/

/-- The context with buffers for a band, allocated if they are missing. -/
def withBuffers (d : DecodeCtx) (h : BandHeader) : DecodeCtx :=
  if d.bandBuf = none ∨ d.bytesPerRow ≠ rowBytesOf h then allocate d (rowBytesOf h) (bandSize h)
  else d

/-- `on_band` gets past its allocations. -/
def Buffered (d : DecodeCtx) (h : BandHeader) : Prop :=
  d.bandBuf = none ∨ d.bytesPerRow ≠ rowBytesOf h →
    (withBuffers d h).bandBuf ≠ none ∧ (withBuffers d h).rowsBuf ≠ none

/-- The band is decoded without error. -/
def Decoded (d : DecodeCtx) (h : BandHeader) (payload : Bytes) : Prop :=
  h.compression = COMPRESSION_0X11 ∧ Buffered d h ∧ DecodesFully h payload

instance (d : DecodeCtx) (h : BandHeader) : Decidable (Buffered d h) :=
  inferInstanceAs (Decidable (_ → _))

instance (h : BandHeader) (payload : Bytes) : Decidable (DecodesFully h payload) :=
  inferInstanceAs (Decidable (_ ∧ _))

instance (d : DecodeCtx) (h : BandHeader) (payload : Bytes) : Decidable (Decoded d h payload) :=
  inferInstanceAs (Decidable (_ ∧ _))

/-- An end-of-page record writes a PBM. -/
def WritesPage (d : DecodeCtx) : Prop :=
  d.pageRows ≠ none ∧ 0 ≤ d.maxBand ∧ d.canOpen d.opened = true

instance (d : DecodeCtx) : Decidable (WritesPage d) := inferInstanceAs (Decidable (_ ∧ _))

/-- The decoded bands, the later one when a number repeats. -/
structure PageLog where
  /-- Decoded since the latest page record. -/
  shown : Bands := .empty
  /-- Decoded before the latest page record, and since the latest written PBM. -/
  stale : Bands := .empty
  /-- Decoded since both. -/
  fresh : Bands := .empty

def PageLog.decode (log : PageLog) (number : UInt8) (band : Bytes) : PageLog :=
  { log with shown := log.shown.put number band, fresh := log.fresh.put number band }

abbrev LoggedCtx := DecodeCtx × PageLog

def logStep (s : LoggedCtx) : Event → PageLog
  | .page _ _ => { stale := s.2.fresh.overlay s.2.stale }
  | .band _ h payload =>
    if Decoded s.1 h payload then s.2.decode h.number (codec11Decode payload (bandSize h)).out
    else s.2
  | .endPage _ _ => if WritesPage s.1 then { shown := s.2.shown } else s.2
  | _ => s.2

def loggedStep (s : LoggedCtx) (ev : Event) : LoggedCtx := (decodeStep s.1 ev, logStep s ev)

/-! ## The condition -/

/-- The bands of the job have 128 lines and a common width. -/
def UniformBand (width : UInt16) : Event → Prop
  | .band _ h _ => h.height = 128 ∧ h.width = width
  | _ => True

/-- A PBM the callback writes shows the bands decoded since the latest page
record. -/
def ShowsPage (width : UInt16) (s : LoggedCtx) (ev : Event) : Prop :=
  ∀ f, (decodeStep s.1 ev).files = s.1.files ++ [f] → f.Shows width s.2.shown

def WhiteBand (band : Option Bytes) : Prop := ∀ bytes ∈ band, ∀ c ∈ bytes, c = 0xFF

/-- Where a PBM is written, the width is a multiple of 8, and up to the highest
band of the page each band from before the page record, and each band that an
earlier PBM of the page showed, is white or decoded again since. -/
def PagesApart (width : UInt16) (s : LoggedCtx) : Event → Prop
  | .endPage _ _ => WritesPage s.1 → width.toNat % 8 = 0 ∧
      ∀ k : Nat, (k : Int) ≤ s.1.maxBand → s.2.fresh k = none →
        WhiteBand (s.2.stale k) ∧ WhiteBand (s.2.shown k)
  | _ => True

/-! ## White bands -/

/-- The bytes of a decoded band. -/
def bandBytes (width : UInt16) : Nat := width.toNat / 8 * 128

theorem not_eq_zero_iff (c : UInt8) : ~~~c = 0 ↔ c = 0xFF :=
  Bits.forall_byte (P := fun c => ~~~c = 0 ↔ c = 0xFF) (by decide +kernel) c

/-- A band is white exactly when all bytes of its rows are. -/
theorem whiteBand_iff {width : UInt16} {band : Option Bytes}
    (hlen : ∀ bytes ∈ band, bytes.length = bandBytes width) :
    WhiteBand band ↔ ∀ line < 128, ∀ col < width.toNat / 8, bandByte band line col = 0 := by
  cases band with
  | none => exact ⟨fun _ _ _ _ _ => rfl, fun _ bytes hbytes => absurd hbytes (Option.not_mem_none bytes)⟩
  | some bytes =>
    have hsize : bytes.length = width.toNat / 8 * 128 := hlen bytes rfl
    constructor
    · intro hwhite line hline col hcol
      have hcell := columnIndex_lt (mem_bandCells.mpr ⟨hcol, hline⟩ : (col, line) ∈ _)
      rw [bandByte, not_eq_zero_iff, byteAt_eq_getElem (by omega)]
      exact hwhite bytes rfl _ (List.getElem_mem _)
    · rintro hcells _ ⟨rfl⟩ c hc
      obtain ⟨i, hi, rfl⟩ := List.mem_iff_getElem.mp hc
      have hcell := hcells (i % 128) (Nat.mod_lt _ (by decide)) (i / 128) (by omega)
      rw [bandByte, not_eq_zero_iff, columnIndex, show i / 128 * 128 + i % 128 = i by omega,
        byteAt_eq_getElem hi] at hcell
      exact hcell

/-! ## The log -/

/-- A fresh band is the one shown, stale bands and bands an earlier PBM showed
exclude each other, and all bands have the same size. -/
structure PageLog.Consistent (log : PageLog) (size : Nat) : Prop where
  shown_eq : ∀ k, log.fresh k ≠ none → log.shown k = log.fresh k
  stale_or : (∀ k, log.stale k = none) ∨ ∀ k, log.shown k = log.fresh k
  length_shown : ∀ k, ∀ bytes ∈ log.shown k, bytes.length = size
  length_stale : ∀ k, ∀ bytes ∈ log.stale k, bytes.length = size

/-- The bands on the bitmap. -/
def PageLog.held (log : PageLog) : Bands := log.fresh.overlay log.stale

theorem consistent_start (size : Nat) : PageLog.Consistent {} size where
  shown_eq := fun _ _ => rfl
  stale_or := .inl fun _ => rfl
  length_shown := fun _ bytes hbytes => absurd hbytes (Option.not_mem_none bytes)
  length_stale := fun _ bytes hbytes => absurd hbytes (Option.not_mem_none bytes)

theorem consistent_page {log : PageLog} {size : Nat} (h : log.Consistent size) :
    PageLog.Consistent { stale := log.held } size where
  shown_eq := fun _ _ => rfl
  stale_or := .inr fun _ => rfl
  length_shown := fun _ bytes hbytes => absurd hbytes (Option.not_mem_none bytes)
  length_stale := by
    intro k bytes hbytes
    change bytes ∈ (log.fresh k).or (log.stale k) at hbytes
    cases hfresh : log.fresh k with
    | none =>
      rw [hfresh, Option.none_or] at hbytes
      exact h.length_stale k bytes hbytes
    | some b =>
      have hshown := h.shown_eq k (by rw [hfresh]; exact Option.some_ne_none b)
      rw [Option.or_of_isSome (by rw [hfresh]; rfl), ← hshown] at hbytes
      exact h.length_shown k bytes hbytes

theorem consistent_written {log : PageLog} {size : Nat} (h : log.Consistent size) :
    PageLog.Consistent { shown := log.shown } size where
  shown_eq := fun _ hfresh => absurd rfl hfresh
  stale_or := .inl fun _ => rfl
  length_shown := h.length_shown
  length_stale := fun _ bytes hbytes => absurd hbytes (Option.not_mem_none bytes)

theorem consistent_decode {log : PageLog} {size : Nat} (h : log.Consistent size) (number : UInt8)
    {band : Bytes} (hband : band.length = size) : (log.decode number band).Consistent size where
  shown_eq := by
    intro k hfresh
    by_cases hk : k = number.toNat
    · subst hk
      exact (Bands.put_same _ _ _).trans (Bands.put_same _ _ _).symm
    · change log.fresh.put number band k ≠ none at hfresh
      rw [Bands.put_of_ne _ _ hk] at hfresh
      exact (Bands.put_of_ne _ _ hk).trans ((h.shown_eq k hfresh).trans
        (Bands.put_of_ne _ _ hk).symm)
  stale_or := by
    apply h.stale_or.imp_right
    intro hsame k
    have hbands : log.shown = log.fresh := funext hsame
    show log.shown.put number band k = log.fresh.put number band k
    rw [hbands]
  length_shown := by
    intro k bytes hbytes
    change bytes ∈ log.shown.put number band k at hbytes
    by_cases hk : k = number.toNat
    · subst hk
      rw [Bands.put_same, Option.mem_some_iff] at hbytes
      rw [← hbytes, hband]
    · rw [Bands.put_of_ne _ _ hk] at hbytes
      exact h.length_shown k bytes hbytes
  length_stale := h.length_stale

/-- A band on the bitmap looks like the band shown exactly when it is fresh, or
both are white. -/
theorem held_eq_shown_iff {width : UInt16} {log : PageLog} (h : log.Consistent (bandBytes width))
    (k : Nat) :
    (∀ line < 128, ∀ col < width.toNat / 8,
      bandByte (log.held k) line col = bandByte (log.shown k) line col) ↔
      (log.fresh k = none → WhiteBand (log.stale k) ∧ WhiteBand (log.shown k)) := by
  by_cases hfresh : log.fresh k = none
  · have hheld : log.held k = log.stale k := by
      rw [PageLog.held, Bands.overlay, hfresh, Option.none_or]
    rw [hheld, whiteBand_iff (h.length_stale k), whiteBand_iff (h.length_shown k)]
    constructor
    · intro hsame _
      rcases h.stale_or with hstale | hshown
      · rw [hstale k] at hsame ⊢
        exact ⟨fun _ _ _ _ => rfl, fun line hline col hcol => (hsame line hline col hcol).symm⟩
      · rw [hshown k, hfresh] at hsame ⊢
        exact ⟨hsame, fun _ _ _ _ => rfl⟩
    · intro hwhite line hline col hcol
      rw [(hwhite hfresh).1 line hline col hcol, (hwhite hfresh).2 line hline col hcol]
  · have hheld : log.held k = log.fresh k := by
      obtain ⟨band, hband⟩ := Option.ne_none_iff_exists'.mp hfresh
      rw [PageLog.held, Bands.overlay, hband, Option.some_or]
    rw [hheld, h.shown_eq k hfresh]
    exact ⟨fun _ hnone => absurd hnone hfresh, fun _ _ _ _ _ => rfl⟩

/-! ## A written page -/

/-- A row of a `P4` file has as many bytes as a row of the bitmap exactly when
the width is a multiple of 8. -/
theorem rowBytes_eq_iff (width : UInt16) :
    width.toNat / 8 = (width.toNat + 7) / 8 ↔ width.toNat % 8 = 0 := by
  omega

/-- The file that `writePage` writes. -/
def pbmOf (d : DecodeCtx) (page : Bytes) : Pbm where
  path := pbmPath (d.pbmPrefix.getD []) d.pages
  width := d.bandWidth
  height := (d.maxBand.toNat + 1) * 128
  rows := page.take ((d.maxBand.toNat + 1) * 128 * d.bytesPerRow)

/-- A page whose bitmap holds `held` shows `shown` exactly when the bands up to
the highest one look the same. -/
theorem shows_iff {d : DecodeCtx} {page : Bytes} {width : UInt16} {held shown : Bands}
    (hrow : d.bytesPerRow = width.toNat / 8) (hwidth : d.bandWidth = width)
    (hlen : page.length = 256 * bandBytes width) (hmax : d.maxBand ≤ 255) (hpos : 0 ≤ d.maxBand)
    (hpage : ∀ line < 256 * 128, ∀ col < width.toNat / 8,
      byteAt page (line * (width.toNat / 8) + col) = held.pageByte line col)
    (hshown : ∀ k, shown k ≠ none → (k : Int) ≤ d.maxBand) :
    (pbmOf d page).Shows width shown ↔ width.toNat % 8 = 0 ∧
      ∀ k : Nat, (k : Int) ≤ d.maxBand → ∀ line < 128, ∀ col < width.toNat / 8,
        bandByte (held k) line col = bandByte (shown k) line col := by
  obtain ⟨n, hn⟩ := Int.eq_ofNat_of_zero_le hpos
  have hnlt : n < 256 := by omega
  have hheight : (pbmOf d page).height = (n + 1) * 128 := by
    show (d.maxBand.toNat + 1) * 128 = (n + 1) * 128
    rw [hn]
    rfl
  have hbytes : (pbmOf d page).rowBytes = (width.toNat + 7) / 8 := by
    show (d.bandWidth.toNat + 7) / 8 = _
    rw [hwidth]
  have hrows : (pbmOf d page).rows = page.take ((n + 1) * 128 * (width.toNat / 8)) := by
    show page.take ((d.maxBand.toNat + 1) * 128 * d.bytesPerRow) = _
    rw [hn, hrow]
    rfl
  have hfits : (n + 1) * 128 * (width.toNat / 8) ≤ page.length := by
    rw [hlen, bandBytes, Nat.mul_comm (width.toNat / 8), ← Nat.mul_assoc]
    exact Nat.mul_le_mul_right _ (by omega)
  have hlength : (pbmOf d page).rows.length = (n + 1) * 128 * (width.toNat / 8) := by
    rw [hrows, List.length_take_of_le hfits]
  -- inside the file the bytes are those of the bitmap
  have hbyte (line : Nat) (hline : line < (n + 1) * 128) (col : Nat) (hcol : col < width.toNat / 8) :
      byteAt (pbmOf d page).rows (line * (width.toNat / 8) + col) = held.pageByte line col := by
    have hlt : line * (width.toNat / 8) + col < (n + 1) * 128 * (width.toNat / 8) := by
      rw [Nat.mul_comm line]
      exact Nat.mul_add_lt_mul_of_lt_of_lt hline hcol
    rw [hrows, byteAt_take _ hlt]
    exact hpage line (hline.trans_le (Nat.mul_le_mul_right 128 hnlt)) col hcol
  constructor
  · intro hf
    have hmod : width.toNat % 8 = 0 := by
      have hsize := hf.length_rows
      rw [hlength, hheight, hbytes] at hsize
      have hlines : 0 < (n + 1) * 128 := by omega
      exact (rowBytes_eq_iff width).mp (Nat.eq_of_mul_eq_mul_left hlines hsize)
    refine ⟨hmod, ?_⟩
    intro k hk line hline col hcol
    have hkn : k ≤ n := by omega
    have hplace : k * 128 + line < (n + 1) * 128 := by omega
    have hcell := hf.bytes (k * 128 + line) (by rw [hheight]; exact hplace) col
      (by rw [hbytes, ← (rowBytes_eq_iff width).mpr hmod]; exact hcol)
    rw [hbytes, ← (rowBytes_eq_iff width).mpr hmod, hbyte _ hplace col hcol] at hcell
    rw [Bands.pageByte, Bands.pageByte, show (k * 128 + line) / 128 = k by omega,
      show (k * 128 + line) % 128 = line by omega] at hcell
    exact hcell
  · rintro ⟨hmod, hsame⟩
    have hstride := (rowBytes_eq_iff width).mpr hmod
    refine ⟨hwidth, ?_, ?_, ?_⟩
    · rw [hlength, hheight, hbytes, ← hstride]
    · intro k hk
      have hle := hshown k hk
      rw [hheight]
      omega
    · intro line hline col hcol
      rw [hheight] at hline
      rw [hbytes, ← hstride] at hcol
      rw [hbytes, ← hstride, hbyte line hline col hcol]
      exact hsame (line / 128) (by omega) (line % 128) (Nat.mod_lt _ (by decide)) col hcol

end Airbridge.Cli
