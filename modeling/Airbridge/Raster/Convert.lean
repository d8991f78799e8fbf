import Airbridge.Lib.Bits
import Airbridge.Lib.Buffer
import Airbridge.Qpdl.Records

/-!
# Raster lines

`convert.c` and the table lookup of `tone.c`: a line in one of the client's
pixel formats becomes a line of grays (0 is black), is cropped to the
printable area, and is mapped to ink (255 is solid black).

The transfer functions of the 24-bit sRGB format are floating-point code; the
gray of such a pixel is a parameter.
-/

namespace Airbridge.Raster

open Airbridge.Qpdl (Bytes byteAt)

/-- `m2022_pixel_format_t`. -/
inductive PixelFormat where
  | sgray8
  | black8
  | black1
  | srgb24
deriving Repr, DecidableEq

def rasterLineBytes (fmt : PixelFormat) (width : Nat) : Nat :=
  match fmt with
  | .black1 => (width + 7) / 8
  | .srgb24 => width * 3
  | _ => width

/-- The gray of pixel `x` of a line. -/
def grayAt (srgbGray : UInt8 → UInt8 → UInt8 → UInt8) (fmt : PixelFormat) (line : Bytes)
    (x : Nat) : UInt8 :=
  match fmt with
  | .sgray8 => byteAt line x
  | .black8 => 255 - byteAt line x
  | .black1 => if Bits.get line x then 0 else 255
  | .srgb24 => srgbGray (byteAt line (3 * x)) (byteAt line (3 * x + 1)) (byteAt line (3 * x + 2))

def rasterLineToGray (srgbGray : UInt8 → UInt8 → UInt8 → UInt8) (fmt : PixelFormat) (line : Bytes)
    (width : Nat) (gray : Bytes) : Bytes :=
  Buffer.store gray 0 ((List.range width).map (grayAt srgbGray fmt line))

/-- The source pixel at `sx`, and `fill` outside the source. -/
def fitPixel (input : Bytes) (inWidth : Nat) (sx : Int) (fill : UInt8) : UInt8 :=
  if 0 ≤ sx ∧ sx < inWidth then byteAt input sx.toNat else fill

def rasterFitLine (input : Bytes) (inWidth : Nat) (srcX0 : Int) (out : Bytes) (outWidth : Nat)
    (fill : UInt8) : Bytes :=
  Buffer.store out 0 ((List.range outWidth).map fun (x : Nat) =>
    fitPixel input inWidth (srcX0 + x) fill)

/-- The table from gray to ink. -/
structure ToneLut where
  entries : List UInt8
  length_eq : entries.length = 256
deriving Repr, DecidableEq

theorem length_zeroEntries : (List.replicate 256 (0 : UInt8)).length = 256 := List.length_replicate

/-- The table of black as the rest to white. -/
def plainLut : ToneLut where
  entries := (List.range 256).map fun gray => UInt8.ofNat (255 - gray)
  length_eq := by rw [List.length_map, List.length_range]

def ToneLut.ink (lut : ToneLut) (gray : UInt8) : UInt8 := lut.entries.getD gray.toNat 0

def toneApply (lut : ToneLut) (gray : Bytes) (width : Nat) (ink : Bytes) : Bytes :=
  Buffer.store ink 0 ((List.range width).map fun x => lut.ink (byteAt gray x))

/-! ## Doubling a line -/

/-- The two cells that the loop of `m2022_raster_upscale2x_line` writes for
pixel `x`; the index is of 32 bits. -/
def upscaledCells (x : Nat) : Nat × Nat := (2 * x % 2 ^ 32, (2 * x % 2 ^ 32 + 1) % 2 ^ 32)

/-- The two values it writes. -/
def upscaledPixels (input : Bytes) (inWidth x : Nat) : UInt8 × UInt8 :=
  let a := (byteAt input x).toNat
  let b := (byteAt input (if (x + 1) % 2 ^ 32 < inWidth then (x + 1) % 2 ^ 32 else x)).toNat
  let p := (byteAt input (if x > 0 then x - 1 else x)).toNat
  (UInt8.ofNat ((3 * a + p + 2) / 4), UInt8.ofNat ((3 * a + b + 2) / 4))

def rasterUpscale2xLine (input : Bytes) (inWidth : Nat) (out : Bytes) : Bytes :=
  (List.range inWidth).foldl (fun out x =>
    (out.set (upscaledCells x).1 (upscaledPixels input inWidth x).1).set (upscaledCells x).2
      (upscaledPixels input inWidth x).2) out

@[simp] theorem length_rasterUpscale2xLine (input : Bytes) (inWidth : Nat) (out : Bytes) :
    (rasterUpscale2xLine input inWidth out).length = out.length := by
  unfold rasterUpscale2xLine
  generalize List.range inWidth = xs
  induction xs generalizing out with
  | nil => rfl
  | cons x xs ih => rw [List.foldl_cons, ih, List.length_set, List.length_set]

/-! ## What the bytes of a line mean -/

/-- The gray of pixel `x` of a client's line, 0 for black: of sGray the byte
itself, of 8-bit black the rest to 255, of 1-bit black 0 where the bit of the
pixel is set, the first pixel in the highest bit. -/
def pixelGray (srgbGray : UInt8 → UInt8 → UInt8 → UInt8) (fmt : PixelFormat) (line : Bytes)
    (x : Nat) : UInt8 :=
  match fmt with
  | .sgray8 => line.getD x 0
  | .black8 => UInt8.ofNat (255 - (line.getD x 0).toNat)
  | .black1 => if (line.getD (x / 8) 0).toNat / 2 ^ (7 - x % 8) % 2 = 1 then 0 else 255
  | .srgb24 => srgbGray (line.getD (3 * x) 0) (line.getD (3 * x + 1) 0) (line.getD (3 * x + 2) 0)

theorem grayAt_eq (srgbGray : UInt8 → UInt8 → UInt8 → UInt8) (fmt : PixelFormat) (line : Bytes) :
    grayAt srgbGray fmt line = pixelGray srgbGray fmt line := by
  funext x
  cases fmt with
  | sgray8 => rfl
  | black8 =>
    apply UInt8.toNat_inj.mp
    have hle : byteAt line x ≤ 255 := UInt8.le_iff_toNat_le.mpr (by
      have := (byteAt line x).toNat_lt
      exact Nat.le_of_lt_succ this)
    have hsub : (255 - byteAt line x).toNat = 255 - (byteAt line x).toNat :=
      UInt8.toNat_sub_of_le _ _ hle
    have hlt : 255 - (byteAt line x).toNat < 256 := by omega
    exact hsub.trans (UInt8.toNat_ofNat_of_lt' hlt).symm
  | black1 =>
    show (if Bits.get line x then _ else _) = if _ then _ else _
    rw [Bits.get, Bits.ofByte, Nat.testBit_eq_decide_div_mod_eq]
    simp only [decide_eq_true_eq]
  | srgb24 => rfl

/-! ## One line through the three steps -/

@[simp] theorem length_rasterLineToGray (srgbGray : UInt8 → UInt8 → UInt8 → UInt8)
    (fmt : PixelFormat) (line : Bytes) (width : Nat) (gray : Bytes) :
    (rasterLineToGray srgbGray fmt line width gray).length = gray.length :=
  Buffer.length_store _ _ _

@[simp] theorem length_rasterFitLine (input : Bytes) (inWidth : Nat) (srcX0 : Int) (out : Bytes)
    (outWidth : Nat) (fill : UInt8) :
    (rasterFitLine input inWidth srcX0 out outWidth fill).length = out.length :=
  Buffer.length_store _ _ _

@[simp] theorem length_toneApply (lut : ToneLut) (gray : Bytes) (width : Nat) (ink : Bytes) :
    (toneApply lut gray width ink).length = ink.length :=
  Buffer.length_store _ _ _

theorem byteAt_map_range (f : Nat → UInt8) {n x : Nat} (hx : x < n) :
    byteAt ((List.range n).map f) x = f x := by
  unfold byteAt
  rw [List.getD_eq_getElem _ _ (by simpa using hx), List.getElem_map, List.getElem_range]

/-- With buffers of the sizes of their lines, the ink of a cropped line is the
table's ink for the grays from `x0` on, whatever the buffers held. -/
theorem toneApply_fitLine (srgbGray : UInt8 → UInt8 → UInt8 → UInt8) (fmt : PixelFormat)
    (lut : ToneLut) (line : Bytes) {rasterWidth width x0 : Nat} (hfit : x0 + width ≤ rasterWidth)
    {grayFull gray ink : Bytes} (hfull : grayFull.length = rasterWidth)
    (hgray : gray.length = width) (hink : ink.length = width) :
    toneApply lut
        (rasterFitLine (rasterLineToGray srgbGray fmt line rasterWidth grayFull) rasterWidth x0
          gray width 255) width ink =
      (List.range width).map fun x => lut.ink (pixelGray srgbGray fmt line (x0 + x)) := by
  unfold toneApply rasterFitLine rasterLineToGray
  rw [grayAt_eq, Buffer.store_zero (by simp [hink]), Buffer.store_zero (by simp [hgray]),
    Buffer.store_zero (by simp [hfull])]
  apply List.map_congr_left
  intro x hx
  have hlt : x < width := List.mem_range.mp hx
  have hin : 0 ≤ (x0 : Int) + x ∧ (x0 : Int) + x < rasterWidth := by omega
  have hsx : ((x0 : Int) + x).toNat = x0 + x := by omega
  rw [byteAt_map_range _ hlt]
  unfold fitPixel
  rw [if_pos hin, hsx, byteAt_map_range _ (by omega)]

/-! ## Lines in buffers of their size -/

theorem rasterLineToGray_eq (srgbGray : UInt8 → UInt8 → UInt8 → UInt8) (fmt : PixelFormat)
    (line : Bytes) {width : Nat} {gray : Bytes} (hgray : gray.length = width) :
    rasterLineToGray srgbGray fmt line width gray =
      (List.range width).map (pixelGray srgbGray fmt line) := by
  unfold rasterLineToGray
  rw [grayAt_eq]
  exact Buffer.store_zero (by simp [hgray])

theorem toneApply_eq (lut : ToneLut) {gray ink : Bytes} (hink : ink.length = gray.length) :
    toneApply lut gray gray.length ink = gray.map lut.ink := by
  unfold toneApply
  rw [Buffer.store_zero (by simp [hink])]
  apply List.ext_getElem
  · simp
  · intro i hi hi'
    have hlt : i < gray.length := by simpa using hi'
    simp [byteAt, hlt]

/-- Pixel `x` of the line of twice the width: three quarters of the pixel that
it is half of, and one quarter of the pixel next to it on this side.  A pixel at
an end of the line is its own neighbour. -/
def doubledPixel (gray : Bytes) (x : Nat) : UInt8 :=
  let side := if x % 2 = 0 then x / 2 - 1 else min (x / 2 + 1) (gray.length - 1)
  UInt8.ofNat ((3 * (gray.getD (x / 2) 0).toNat + (gray.getD side 0).toNat + 2) / 4)

/-- The line of twice the width. -/
def doubledLine (gray : Bytes) : Bytes := (List.range (2 * gray.length)).map (doubledPixel gray)

@[simp] theorem length_doubledLine (gray : Bytes) :
    (doubledLine gray).length = 2 * gray.length := by
  rw [doubledLine, List.length_map, List.length_range]

/-- The two pixels that the loop makes of one. -/
theorem doubledPixel_eq {gray : Bytes} (hwidth : gray.length < 2 ^ 31) {x : Nat}
    (hx : x < gray.length) :
    doubledPixel gray (2 * x) = (upscaledPixels gray gray.length x).1 ∧
      doubledPixel gray (2 * x + 1) = (upscaledPixels gray gray.length x).2 := by
  have hleft : (if x > 0 then x - 1 else x) = x - 1 := by
    split_ifs <;> omega
  have hnext : (x + 1) % 2 ^ 32 = x + 1 := Nat.mod_eq_of_lt (by omega)
  have hright : (if x + 1 < gray.length then x + 1 else x) = min (x + 1) (gray.length - 1) := by
    split_ifs <;> omega
  unfold doubledPixel upscaledPixels byteAt
  simp only [hnext, hleft, hright]
  constructor
  · rw [if_pos (Nat.mul_mod_right 2 x), Nat.mul_div_cancel_left x Nat.two_pos]
  · rw [if_neg (by omega), show (2 * x + 1) / 2 = x by omega]

/-- Below 2^31 pixels the loop fills a buffer of the doubled size, pair by
pair. -/
theorem rasterUpscale2xLine_eq {gray out : Bytes} (hwidth : gray.length < 2 ^ 31)
    (hout : out.length = 2 * gray.length) :
    rasterUpscale2xLine gray gray.length out = doubledLine gray := by
  have hloop : ∀ n ≤ gray.length,
      (List.range n).foldl (fun out x =>
        (out.set (upscaledCells x).1 (upscaledPixels gray gray.length x).1).set (upscaledCells x).2
          (upscaledPixels gray gray.length x).2) out =
        (List.range (2 * n)).map (doubledPixel gray) ++ out.drop (2 * n) := by
    intro n hn
    induction n with
    | zero => rfl
    | succ n ih =>
      have hcells : upscaledCells n = (2 * n, 2 * n + 1) := by
        unfold upscaledCells
        rw [Nat.mod_eq_of_lt (by omega), Nat.mod_eq_of_lt (by omega)]
      have hdrop : out.drop (2 * n) = out[2 * n] :: out[2 * n + 1] :: out.drop (2 * (n + 1)) := by
        rw [List.drop_eq_getElem_cons (by omega), List.drop_eq_getElem_cons (by omega)]
        rfl
      have hlen : ((List.range (2 * n)).map (doubledPixel gray)).length = 2 * n := by
        rw [List.length_map, List.length_range]
      obtain ⟨heven, hodd⟩ := doubledPixel_eq hwidth hn
      have hpair : (List.range (2 * (n + 1))).map (doubledPixel gray) =
          (List.range (2 * n)).map (doubledPixel gray) ++
            [(upscaledPixels gray gray.length n).1, (upscaledPixels gray gray.length n).2] := by
        rw [show 2 * (n + 1) = 2 * n + 1 + 1 by omega, List.range_succ, List.range_succ,
          List.map_append, List.map_append, List.append_assoc, ← heven, ← hodd]
        rfl
      rw [List.range_succ, List.foldl_append, ih (by omega), hpair, hdrop]
      simp only [List.foldl_cons, List.foldl_nil, hcells]
      rw [List.set_append_right _ _ (by omega), List.set_append_right _ _ (by omega), hlen,
        Nat.sub_self, Nat.add_sub_cancel_left, List.append_assoc]
      rfl
  unfold rasterUpscale2xLine doubledLine
  rw [hloop gray.length (Nat.le_refl _), List.drop_eq_nil_of_le (by omega), List.append_nil]

end Airbridge.Raster
