import Airbridge.Halftone.Halftone

/-!
# Media and the mapping of job options

`media.c` and `jobmap.c`: the paper sizes of the printer, and what the options
of a job mean for the pipeline.  Points are written as the PPD writes them,
to a hundredth, and the model counts hundredths.
-/

namespace Airbridge.App

open Airbridge.Qpdl (Bytes ascii)
open Airbridge.Halftone

/-- `m2022_media_t`.  The imageable area is left, bottom, right and top, in
hundredths of a point from the bottom left corner. -/
structure Media where
  pwgName : Bytes
  qpdlCode : UInt8
  widthPt : Int
  heightPt : Int
  left : Int
  bottom : Int
  right : Int
  top : Int
deriving Repr, DecidableEq

def mediaTable : List Media := [
  ⟨ascii "iso_a4_210x297mm", 0x02, 595, 842, 1250, 1250, 58250, 82950⟩,
  ⟨ascii "na_letter_8.5x11in", 0x00, 612, 792, 1224, 1206, 59976, 78006⟩,
  ⟨ascii "na_legal_8.5x14in", 0x01, 612, 1008, 1250, 1250, 59950, 99550⟩,
  ⟨ascii "na_executive_7.25x10.5in", 0x03, 522, 756, 1330, 1210, 50870, 74410⟩,
  ⟨ascii "iso_a5_148x210mm", 0x10, 420, 595, 1250, 1250, 40750, 58250⟩,
  ⟨ascii "jis_b5_182x257mm", 0x0B, 516, 729, 1250, 1250, 50350, 71650⟩,
  ⟨ascii "iso_b5_176x250mm", 0x0C, 499, 709, 1320, 1206, 48552, 69654⟩,
  ⟨ascii "na_foolscap_8.5x13in", 0x18, 612, 936, 1250, 1250, 59950, 92350⟩,
  ⟨ascii "custom_8.5x13.5in_8.5x13.5in", 0x1C, 612, 972, 1250, 1250, 59950, 95950⟩,
  ⟨ascii "na_index-4x6_4x6in", 0x0D, 288, 432, 1250, 1250, 27550, 41950⟩,
  ⟨ascii "iso_c5_162x229mm", 0x08, 459, 649, 1260, 1210, 44650, 63700⟩,
  ⟨ascii "iso_dl_110x220mm", 0x09, 312, 624, 1380, 1210, 29790, 61160⟩,
  ⟨ascii "na_number-10_4.125x9.5in", 0x06, 297, 684, 1300, 1300, 28450, 67150⟩,
  ⟨ascii "na_monarch_3.875x7.5in", 0x07, 279, 540, 1270, 1210, 26620, 52810⟩]

def mediaByPwg (pwgName : Bytes) : Option Media := mediaTable.find? fun m => m.pwgName = pwgName

/-! ## Options -/

/-- `m2022_content_t`. -/
inductive Content where
  | auto
  | text
  | graphic
  | photo
  | textAndGraphic
deriving Repr, DecidableEq

abbrev IPP_QUALITY_DRAFT : Int := 3
abbrev IPP_QUALITY_HIGH : Int := 5

def jobmapPreset (ippQuality : Int) (content : Content) : Preset :=
  if ippQuality = IPP_QUALITY_DRAFT then .draft
  else if content = .text then .text
  else if content = .photo ∨ ippQuality = IPP_QUALITY_HIGH then .photo
  else .normal

/-- The PJL value of each PWG media type. -/
def paperTypeMap : List (Bytes × Bytes) := [
  (ascii "stationery", ascii "OFF"),
  (ascii "stationery-heavyweight", ascii "THICK"),
  (ascii "stationery-lightweight", ascii "THIN"),
  (ascii "stationery-preprinted", ascii "USED"),
  (ascii "cardstock", ascii "CARD"),
  (ascii "labels", ascii "LABEL"),
  (ascii "envelope", ascii "ENV")]

def jobmapPaperType (pwgMediaType : Bytes) : Bytes :=
  match paperTypeMap.find? fun entry => entry.1 = pwgMediaType with
  | some entry => entry.2
  | none => ascii "OFF"

def jobmapFeeder (pwgMediaSource : Bytes) : UInt8 :=
  if pwgMediaSource = ascii "manual" then 2 else 1

/-! ## Geometry -/

/-- Hundredths of a point to pixels, rounded half up. -/
def px (hundredths : Int) (dpi : Nat) : Nat :=
  let v := (hundredths * dpi + 3600).tdiv 7200
  if v ≤ 0 then 0 else v.toNat

/-- `m2022_jobmap_geometry_t`: where the printable area lies in the client's
raster. -/
structure JobmapGeometry where
  x0 : Nat := 0
  y0 : Nat := 0
  width : Nat := 0
  height : Nat := 0
deriving Repr, DecidableEq

/-- The size of the imageable area and its margins, in pixels. -/
def Media.imageableWidth (media : Media) (dpi : Nat) : Nat := px (media.right - media.left) dpi

def Media.imageableHeight (media : Media) (dpi : Nat) : Nat := px (media.top - media.bottom) dpi

def jobmapGeometry (media : Option Media) (dpi rasterWidth rasterHeight : Nat) :
    Bool × JobmapGeometry :=
  match media with
  | none => (false, {})
  | some media =>
    if dpi = 0 ∨ rasterWidth = 0 ∨ rasterHeight = 0 then (false, {})
    else
      let pw := media.imageableWidth dpi
      let ph := media.imageableHeight dpi
      let left := px media.left dpi
      let top := px (media.heightPt * 100 - media.top) dpi
      if pw = 0 ∨ ph = 0 then (false, {})
      else
        let x0 := if rasterWidth ≥ pw + left then left else 0
        let y0 := if rasterHeight ≥ ph + top then top else 0
        (true, {
          x0 := x0
          y0 := y0
          width := if rasterWidth - x0 < pw then rasterWidth - x0 else pw
          height := if rasterHeight - y0 < ph then rasterHeight - y0 else ph })

/-- The imageable areas are not empty and within the limits of a page. -/
theorem imageable_bounds :
    ∀ m ∈ mediaTable, 0 < m.imageableWidth 600 ∧ m.imageableWidth 600 ≤ 65280 ∧
      0 < m.imageableHeight 600 ∧ m.imageableHeight 600 ≤ 256 * 128 := by
  decide

theorem mem_mediaTable {name : Bytes} {m : Media} (h : mediaByPwg name = some m) :
    m ∈ mediaTable :=
  List.mem_of_find?_eq_some h

/-- The crop window lies inside the raster, is not empty, and is no larger
than the imageable area. -/
structure InRaster (m : Media) (rasterWidth rasterHeight : Nat) (g : JobmapGeometry) : Prop where
  right_le : g.x0 + g.width ≤ rasterWidth
  bottom_le : g.y0 + g.height ≤ rasterHeight
  width_pos : 0 < g.width
  height_pos : 0 < g.height
  width_le : g.width ≤ m.imageableWidth 600
  height_le : g.height ≤ m.imageableHeight 600

theorem jobmapGeometry_inRaster {m : Media} (hm : m ∈ mediaTable) {rasterWidth rasterHeight : Nat}
    (hw : 0 < rasterWidth) (hh : 0 < rasterHeight) :
    (jobmapGeometry (some m) 600 rasterWidth rasterHeight).1 = true ∧
      InRaster m rasterWidth rasterHeight
        (jobmapGeometry (some m) 600 rasterWidth rasterHeight).2 := by
  obtain ⟨hpw, -, hph, -⟩ := imageable_bounds m hm
  unfold jobmapGeometry
  dsimp only
  rw [if_neg (by omega), if_neg (by omega)]
  refine ⟨rfl, ?_⟩
  constructor <;> dsimp only <;> split_ifs <;> omega

/-- An empty raster has no crop window. -/
theorem jobmapGeometry_empty (media : Option Media) {rasterWidth rasterHeight : Nat}
    (h : rasterWidth = 0 ∨ rasterHeight = 0) :
    (jobmapGeometry media 600 rasterWidth rasterHeight).1 = false := by
  unfold jobmapGeometry
  cases media with
  | none => rfl
  | some media =>
    dsimp only
    rw [if_pos (.inr h)]

end Airbridge.App
