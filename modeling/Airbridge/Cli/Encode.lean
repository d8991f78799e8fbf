import Airbridge.Cli.Pipeline
import Airbridge.Halftone.Halftone
import Airbridge.Lib.Run
import Airbridge.Qpdl.Envelope

/-!
# The encode command

`cmd_encode.c`: one page, converted and halftoned line by line and handed to
the job encoder.  At 1200 dpi an input of 600 dpi is doubled in both
directions, and the doubled size is computed in 32 bits.

Every write of the conversion to its buffers is recorded with the size of the
buffer, as `Cli.Decode` does.  The parsing of the arguments, the printed
summary and the floating-point tone curve are left out.
-/

namespace Airbridge.Cli

open Airbridge.Qpdl Airbridge.Halftone Airbridge.Raster Airbridge.Common Memory

/-- What the arguments come to: the job with its media, the halftone parameters
and the ink table. -/
structure EncodeOptions where
  job : QpdlJob
  htParams : HtParams
  lut : ToneLut
deriving Repr, DecidableEq

/-- The locals of `cmd_encode` behind the start of the page. -/
structure EncodeCtx where
  input : CliRaster
  upscale : Bool
  outWidth : UInt32
  outLines : UInt32
  gray : Bytes
  gray2 : Bytes
  ink : Bytes
  bits : Bytes
  lut : ToneLut
  ht : Halftoner
  enc : Encoder
  rc : Int := 0
  writes : List Access := []

/-- The input is doubled. -/
def upscales (job : QpdlJob) (r : CliRaster) : Bool := job.dpi = 1200 && (r.xDpi = 600 || r.xDpi = 0)

/-- A size of the output, in 32 bits. -/
def outSize (upscale : Bool) (size : UInt32) : UInt32 := if upscale then size * 2 else size

/-- `cmd_encode` up to the lines, when the job and the page could be started.
`enc` is what the memory of the encoder held. -/
def encodeStart (enc : Encoder) (heap : Heap UInt8) (sink : Sink) (o : EncodeOptions)
    (r : CliRaster) : Option EncodeCtx := do
  let upscale := upscales o.job r
  if upscale && r.bilevel then none
  else
    let outWidth := outSize upscale r.width
    let width := outWidth.toNat
    let gray := heap.malloc r.width.toNat
    let gray2 := gray.2.malloc width
    let ink := gray2.2.malloc width
    let bits := ink.2.calloc 0 ((width + 7) / 8)
    let state := bits.2.malloc (halftonerStateBytes width)
    let workspace := state.2.malloc (qpdlEncoderWorkspaceBytes width)
    let gray ← gray.1
    let gray2 ← gray2.1
    let ink ← ink.1
    let bits ← bits.1
    let state ← state.1
    let workspace ← workspace.1
    let ht := halftonerInit o.htParams width (some (int16Cells state))
    let begun := orReturn (qpdlBeginJob enc o.job sink) fun e => qpdlBeginPage e width (some workspace)
    if ht.1 ≠ 0 ∨ begun.1 ≠ 0 then none
    else
      some {
        input := r
        upscale := upscale
        outWidth := outWidth
        outLines := outSize upscale r.height
        gray := gray
        gray2 := gray2
        ink := ink
        bits := bits
        lut := o.lut
        ht := ht.2
        enc := begun.2 }

/-! ## Lines -/

/-- What `m2022_raster_upscale2x_line` writes into a buffer of `size` bytes. -/
def upscaleWrites (inWidth size : Nat) : List Access :=
  (List.range inWidth).flatMap fun x =>
    [⟨(upscaledCells x).1, 1, size⟩, ⟨(upscaledCells x).2, 1, size⟩]

/-- What `m2022_halftone_line` writes into a buffer of `size` bytes: it clears
the line, and may then set any of its pixels. -/
def halftoneWrites (width size : Nat) : List Access :=
  ⟨0, (width + 7) / 8, size⟩ :: (List.range width).map fun x => ⟨x / 8, 1, size⟩

/-- The line as ink, through the buffers. -/
def EncodeCtx.inkLine (c : EncodeCtx) (srgbGray : UInt8 → UInt8 → UInt8 → UInt8) (line : Bytes) :
    EncodeCtx :=
  let inWidth := c.input.width.toNat
  let width := c.outWidth.toNat
  let gray := rasterLineToGray srgbGray c.input.fmt line inWidth c.gray
  let gray2 := if c.upscale then rasterUpscale2xLine gray inWidth c.gray2 else c.gray2
  { c with
    gray := gray
    gray2 := gray2
    ink := toneApply c.lut (if c.upscale then gray2 else gray) width c.ink
    writes := c.writes ++ [⟨0, inWidth, c.gray.length⟩]
      ++ (if c.upscale then upscaleWrites inWidth c.gray2.length else [])
      ++ [⟨0, width, c.ink.length⟩] }

/-- The line as packed bits. -/
def EncodeCtx.bitsLine (c : EncodeCtx) (y : Nat) : EncodeCtx :=
  let h := halftoneLine c.ht c.ink y c.bits
  { c with
    ht := h.1
    bits := h.2
    writes := c.writes ++ halftoneWrites c.ht.width c.bits.length }

/-- The line handed to the encoder. -/
def EncodeCtx.sendLine (c : EncodeCtx) (bits : Bytes) : EncodeCtx :=
  let w := qpdlWriteLine c.enc (some bits)
  { c with
    enc := w.2
    rc := w.1 }

/-- The input from the row for output line `y` on. -/
def EncodeCtx.source (c : EncodeCtx) (y : Nat) : Bytes :=
  let srcY := if c.upscale then y / 2 else y
  c.input.data.drop (c.input.row srcY).start

/-- One pass of the loop over the lines, which ends with the first error. -/
def encodeLine (srgbGray : UInt8 → UInt8 → UInt8 → UInt8) (c : EncodeCtx) (y : Nat) : EncodeCtx :=
  if c.rc ≠ 0 then c
  else if c.input.bilevel then c.sendLine (c.source y)
  else
    let c := (c.inkLine srgbGray (c.source y)).bitsLine y
    c.sendLine c.bits

/-- All lines of the page. -/
def encodeLines (srgbGray : UInt8 → UInt8 → UInt8 → UInt8) (c : EncodeCtx) : EncodeCtx :=
  Run.run (encodeLine srgbGray) c (List.range c.outLines.toNat)

/-! ## Sizes -/

/-- The buffers have the sizes of their lines, and every write so far lies in
its buffer. -/
structure EncodeCtx.Inside (c : EncodeCtx) : Prop where
  length_gray : c.gray.length = c.input.width.toNat
  length_gray2 : c.gray2.length = c.outWidth.toNat
  length_ink : c.ink.length = c.outWidth.toNat
  length_bits : c.bits.length = (c.outWidth.toNat + 7) / 8
  ht_fits : c.ht.Fits c.outWidth.toNat
  writes : ∀ a ∈ c.writes, a.Inside

theorem encodeStart_some {enc : Encoder} {heap : Heap UInt8} {sink : Sink} {o : EncodeOptions}
    {r : CliRaster} {c : EncodeCtx} (h : encodeStart enc heap sink o r = some c) :
    c.input = r ∧ c.upscale = upscales o.job r ∧ c.outWidth = outSize c.upscale r.width ∧
      c.outLines = outSize c.upscale r.height ∧ c.rc = 0 ∧ c.Inside := by
  unfold encodeStart at h
  dsimp only at h
  split_ifs at h
  simp only [Option.bind_eq_bind, Option.bind_eq_some_iff] at h
  obtain ⟨gray, hgray, gray2, hgray2, ink, hink, bits, hbits, state, hstate, workspace, -, h⟩ := h
  split_ifs at h
  obtain rfl := Option.some_inj.mp h
  refine ⟨rfl, rfl, rfl, rfl, rfl, Heap.length_malloc hgray, Heap.length_malloc hgray2,
    Heap.length_malloc hink, Heap.length_calloc hbits, ?_, fun a ha => absurd ha List.not_mem_nil⟩
  have hcells : (int16Cells state).length =
      2 * ((outSize (upscales o.job r) r.width).toNat + 2) := by
    rw [length_int16Cells, Heap.length_malloc hstate, halftonerStateBytes]
    omega
  dsimp only
  rw [halftonerInit_fresh o.htParams hcells]
  exact freshHalftoner_fits o.htParams _

/-- Below 2^31 pixels the doubled line does not leave the buffer of its size. -/
theorem upscaleWrites_inside {inWidth size : Nat} (hwidth : inWidth < 2 ^ 31)
    (hsize : size = inWidth * 2) : ∀ a ∈ upscaleWrites inWidth size, a.Inside := by
  intro a ha
  obtain ⟨x, hx, ha⟩ := List.mem_flatMap.mp ha
  have hlt : x < inWidth := List.mem_range.mp hx
  simp only [List.mem_cons, List.not_mem_nil, or_false] at ha
  rcases ha with rfl | rfl
  · show 2 * x % 2 ^ 32 + 1 ≤ size
    omega
  · show (2 * x % 2 ^ 32 + 1) % 2 ^ 32 + 1 ≤ size
    omega

theorem halftoneWrites_inside {width size : Nat} (hsize : size = (width + 7) / 8) :
    ∀ a ∈ halftoneWrites width size, a.Inside := by
  intro a ha
  rcases List.mem_cons.mp ha with rfl | ha
  · show 0 + (width + 7) / 8 ≤ size
    omega
  · obtain ⟨x, hx, rfl⟩ := List.mem_map.mp ha
    have hlt : x < width := List.mem_range.mp hx
    show x / 8 + 1 ≤ size
    omega

/-- The output is as wide as the doubled input, when that is below 2^32. -/
theorem outSize_exact {upscale : Bool} {size : UInt32} :
    (outSize upscale size).toNat = size.toNat * (if upscale then 2 else 1) ↔
      (upscale = true → size.toNat < 2 ^ 31) := by
  have hsize := size.toNat_lt
  unfold outSize
  cases upscale with
  | false => exact iff_of_true (Nat.mul_one _).symm fun h => absurd h Bool.false_ne_true
  | true =>
    rw [if_pos rfl, if_pos rfl, UInt32.toNat_mul]
    show size.toNat * 2 % 2 ^ 32 = size.toNat * 2 ↔ (true = true → size.toNat < 2 ^ 31)
    constructor
    · intro h _
      omega
    · intro h
      have hlt := h rfl
      omega

/-! ## Lines keep to their buffers -/

section
variable {srgbGray : UInt8 → UInt8 → UInt8 → UInt8} {c : EncodeCtx}

theorem inkLine_inside (h : c.Inside)
    (hexact : c.upscale = true → c.input.width.toNat < 2 ^ 31 ∧
      c.outWidth.toNat = c.input.width.toNat * 2) (line : Bytes) :
    (c.inkLine srgbGray line).Inside := by
  refine ⟨?_, ?_, ?_, h.length_bits, h.ht_fits, ?_⟩
  · exact (length_rasterLineToGray _ _ _ _ _).trans h.length_gray
  · show (if c.upscale then rasterUpscale2xLine _ _ c.gray2 else c.gray2).length = c.outWidth.toNat
    split_ifs
    · exact (length_rasterUpscale2xLine _ _ _).trans h.length_gray2
    · exact h.length_gray2
  · exact (length_toneApply _ _ _ _).trans h.length_ink
  · intro a ha
    simp only [EncodeCtx.inkLine, List.mem_append, List.mem_singleton] at ha
    rcases ha with ((ha | rfl) | ha) | rfl
    · exact h.writes a ha
    · show 0 + c.input.width.toNat ≤ c.gray.length
      rw [h.length_gray, Nat.zero_add]
    · split_ifs at ha with hup
      · obtain ⟨hwidth, heq⟩ := hexact hup
        exact upscaleWrites_inside hwidth (h.length_gray2.trans heq) a ha
      · exact absurd ha List.not_mem_nil
    · show 0 + c.outWidth.toNat ≤ c.ink.length
      rw [h.length_ink, Nat.zero_add]

theorem bitsLine_inside (h : c.Inside) (y : Nat) : (c.bitsLine y).Inside := by
  obtain ⟨hbits, -⟩ := length_halftoneLine c.ht c.ink y c.bits
  refine ⟨h.length_gray, h.length_gray2, h.length_ink, hbits.trans h.length_bits,
    halftoneLine_fits h.ht_fits _ _ _, fun a ha => ?_⟩
  rcases List.mem_append.mp ha with ha | ha
  · exact h.writes a ha
  · refine halftoneWrites_inside ?_ a ha
    rw [h.length_bits, h.ht_fits.width_eq]

theorem sendLine_inside (h : c.Inside) (bits : Bytes) : (c.sendLine bits).Inside :=
  ⟨h.length_gray, h.length_gray2, h.length_ink, h.length_bits, h.ht_fits, h.writes⟩

end

/-- What a line leaves alone: the input and the sizes. -/
structure SameSizes (c d : EncodeCtx) : Prop where
  input_eq : d.input = c.input
  upscale_eq : d.upscale = c.upscale
  outWidth_eq : d.outWidth = c.outWidth
  outLines_eq : d.outLines = c.outLines

theorem encodeLine_same (srgbGray : UInt8 → UInt8 → UInt8 → UInt8) (c : EncodeCtx) (y : Nat) :
    SameSizes c (encodeLine srgbGray c y) := by
  unfold encodeLine
  dsimp only
  split_ifs <;> exact ⟨rfl, rfl, rfl, rfl⟩

/-- One line. -/
theorem encodeLine_inside {srgbGray : UInt8 → UInt8 → UInt8 → UInt8} {c : EncodeCtx}
    (h : c.Inside) (hexact : c.upscale = true → c.input.width.toNat < 2 ^ 31 ∧
      c.outWidth.toNat = c.input.width.toNat * 2) (y : Nat) :
    (encodeLine srgbGray c y).Inside := by
  unfold encodeLine
  dsimp only
  split_ifs
  · exact h
  · exact sendLine_inside h _
  · exact sendLine_inside (bitsLine_inside (inkLine_inside h hexact _) y) _

/-- All lines. -/
theorem encodeLines_inside {srgbGray : UInt8 → UInt8 → UInt8 → UInt8} {c : EncodeCtx}
    (h : c.Inside) (hexact : c.upscale = true → c.input.width.toNat < 2 ^ 31 ∧
      c.outWidth.toNat = c.input.width.toNat * 2) : (encodeLines srgbGray c).Inside := by
  have hstep : ∀ d y, d.Inside ∧ SameSizes c d →
      (encodeLine srgbGray d y).Inside ∧ SameSizes c (encodeLine srgbGray d y) := by
    rintro d y ⟨hinside, hsame⟩
    have hline := encodeLine_same srgbGray d y
    refine ⟨encodeLine_inside hinside ?_ y, ?_⟩
    · rw [hsame.upscale_eq, hsame.input_eq, hsame.outWidth_eq]
      exact hexact
    · exact ⟨hline.input_eq.trans hsame.input_eq, hline.upscale_eq.trans hsame.upscale_eq,
        hline.outWidth_eq.trans hsame.outWidth_eq, hline.outLines_eq.trans hsame.outLines_eq⟩
  exact (Run.run_invariant hstep ⟨h, rfl, rfl, rfl, rfl⟩ _).1

/-- An accepted raster has fewer than 2^31 rows: each has a byte in the file. -/
theorem height_lt {grants : Nat → Bool} {file : GzFile} {r : CliRaster}
    (h : cliRasterOpen grants file = some r) : r.height.toNat < 2 ^ 31 := by
  obtain ⟨data, -, hraster, hlen⟩ := cliRasterOpen_some h
  rcases rasterOpen_cases hraster with
    ⟨-, pnm, hparse, rfl⟩ | ⟨-, header, fmt, hok, -, hsize, rfl⟩
  · obtain ⟨-, hwidth, -, hpixels⟩ := pnmParse_ok hlen hparse
    have hheight : (pnmRaster data pnm).height = pnm.height := by
      unfold pnmRaster
      split_ifs <;> rfl
    rw [hheight]
    split_ifs at hpixels
    · have hle := Nat.le_mul_of_pos_left pnm.height.toNat
        (show 0 < (pnm.width.toNat + 7) / 8 by omega)
      omega
    · have hle := Nat.le_mul_of_pos_left pnm.height.toNat (Nat.pos_of_ne_zero hwidth)
      omega
  · obtain ⟨-, -, hstride⟩ := cupsrasterParseHeader_ok hok
    rw [rasterFileBytes_eq] at hsize
    show header.height.toNat < 2 ^ 31
    have hle := Nat.le_mul_of_pos_left header.height.toNat (Nat.pos_of_ne_zero hstride)
    omega

/-- Behind a start of the job and the page every write of every line lies in its
buffer, and the output has exactly the size of the input or twice that, if and
only if an input that is doubled has fewer than 2^31 pixels in a row. -/
theorem encode_inside_iff {grants : Nat → Bool} {file : GzFile} {r : CliRaster}
    (hopen : cliRasterOpen grants file = some r) {enc : Encoder} {heap : Heap UInt8} {sink : Sink}
    {o : EncodeOptions} {c : EncodeCtx} (hstart : encodeStart enc heap sink o r = some c)
    (srgbGray : UInt8 → UInt8 → UInt8 → UInt8) :
    ((∀ a ∈ (encodeLines srgbGray c).writes, a.Inside) ∧
      c.outWidth.toNat = r.width.toNat * (if upscales o.job r then 2 else 1) ∧
      c.outLines.toNat = r.height.toNat * (if upscales o.job r then 2 else 1)) ↔
    (upscales o.job r = true → r.width.toNat < 2 ^ 31) := by
  obtain ⟨hinput, hupscale, hwidth, hlines, -, hinside⟩ := encodeStart_some hstart
  rw [← hupscale, hwidth, hlines, outSize_exact, outSize_exact]
  constructor
  · exact fun h => h.2.1
  · intro h
    refine ⟨(encodeLines_inside hinside fun hup => ?_).writes, h, fun _ => height_lt hopen⟩
    have hexact := outSize_exact.mpr h
    rw [if_pos hup, ← hwidth] at hexact
    rw [hinput]
    exact ⟨h hup, hexact⟩

/-! ## Starting a page -/

/-- With memory and a file that takes every write a page that is not too wide
is started. -/
theorem exists_encodeStart {heap : Heap UInt8} (hheap : heap.Succeeds) {sink : Sink}
    (hsink : sink.Accepts) {o : EncodeOptions} (hjob : o.job.refused = false) {r : CliRaster}
    (hgray : (upscales o.job r && r.bilevel) = false)
    (hpos : 0 < (outSize (upscales o.job r) r.width).toNat)
    (hle : (outSize (upscales o.job r) r.width).toNat ≤ 65280) (enc : Encoder) :
    ∃ c, encodeStart enc heap sink o r = some c := by
  generalize hwidth : (outSize (upscales o.job r) r.width).toNat = width at hpos hle
  obtain ⟨gray, hgray1, -⟩ := Heap.malloc_succeeds hheap r.width.toNat
  have hheap1 := hheap.malloc r.width.toNat
  obtain ⟨gray2, hgray2, -⟩ := Heap.malloc_succeeds hheap1 width
  have hheap2 := hheap1.malloc width
  obtain ⟨ink, hink, -⟩ := Heap.malloc_succeeds hheap2 width
  have hheap3 := hheap2.malloc width
  have hbits := Heap.calloc_succeeds hheap3 0 ((width + 7) / 8)
  have hheap4 := hheap3.calloc 0 ((width + 7) / 8)
  obtain ⟨state, hstate, hlen⟩ := Heap.malloc_succeeds hheap4 (halftonerStateBytes width)
  have hheap5 := hheap4.malloc (halftonerStateBytes width)
  obtain ⟨workspace, hworkspace, hroom⟩ :=
    Heap.malloc_succeeds hheap5 (qpdlEncoderWorkspaceBytes width)
  have hcells : (int16Cells state).length = 2 * (width + 2) := by
    rw [length_int16Cells, hlen, halftonerStateBytes]
    omega
  obtain ⟨e, hjobBegun, hidle⟩ := beginJob_idle enc o.job sink hjob hsink
  obtain ⟨e', hpageBegun, -⟩ := beginPage_midPage hidle hpos hle (Nat.le_of_eq hroom.symm)
  have hbegun : (orReturn (qpdlBeginJob enc o.job sink) fun e =>
      qpdlBeginPage e width (some workspace)).1 = 0 := by
    rw [hjobBegun, orReturn, if_neg (not_not_intro rfl), hpageBegun]
  unfold encodeStart
  dsimp only
  rw [hgray, if_neg Bool.false_ne_true, hwidth, hgray1, hgray2, hink, hbits, hstate, hworkspace]
  simp only [Option.bind_eq_bind, Option.bind_some]
  rw [halftonerInit_fresh o.htParams hcells, if_neg]
  · exact ⟨_, rfl⟩
  · rw [hbegun]
    simp

/-- The default job at a resolution, on a threshold screen. -/
def plainOptions (dpi : Nat) : EncodeOptions where
  job := { qpdlJobDefault with dpi := dpi }
  htParams := htDefault .threshold
  lut := plainLut

/-- An encoder on the stack. -/
def stackEncoder : Encoder := { job := qpdlJobDefault, sink := .accepting }

/-- A row of 1000 gray pixels at 600 dpi, doubled for a job at 1200 dpi. -/
theorem encode_inside_doubled : ∃ file r, cliRasterOpen (fun _ => true) file = some r ∧
    ∃ c, encodeStart stackEncoder zeroHeap .accepting (plainOptions 1200) r = some c ∧
      c.outWidth.toNat = 1000 * 2 ∧ c.outLines.toNat = 1 * 2 ∧
      ∀ a ∈ (encodeLines (fun _ _ _ => 0) c).writes, a.Inside := by
  have hparse : cupsrasterParseHeader (rowHeader 1000 8 1000 18) = .ok (rowFields 1000 8 1000 18) := by
    decide +kernel
  obtain ⟨file, -, hopen⟩ := exists_rowFile hparse rfl (by decide)
  have hstart : ∃ c, encodeStart stackEncoder zeroHeap .accepting (plainOptions 1200)
      (cupsRaster (rowRaster 1000 8 1000 18) (rowFields 1000 8 1000 18) .sgray8) = some c :=
    exists_encodeStart zeroHeap_succeeds (fun _ => rfl) (by decide) rfl (by decide) (by decide) _
  obtain ⟨c, hstart⟩ := hstart
  obtain ⟨hinside, hwidth, hlines⟩ :=
    (encode_inside_iff hopen hstart fun _ _ _ => 0).mpr fun _ => by decide
  exact ⟨file, _, hopen, c, hstart, hwidth, hlines, hinside⟩

/-- A row of 2^31 + 1 black and white pixels, all of them in the file, at 1200
dpi: the page is two pixels wide, and the first line already writes behind the
buffer of the doubled line. -/
theorem doubled_outside : ∃ file r, cliRasterOpen (fun _ => true) file = some r ∧ r.RowsInside ∧
    ∃ c, encodeStart stackEncoder zeroHeap .accepting (plainOptions 1200) r = some c ∧
      c.outWidth.toNat ≠ r.width.toNat * 2 ∧
      ∀ srgbGray, ∃ a ∈ (encodeLine srgbGray c 0).writes, ¬a.Inside := by
  have hparse : cupsrasterParseHeader (rowHeader 2147483649 1 268435457 3) =
      .ok (rowFields 2147483649 1 268435457 3) := by
    decide +kernel
  obtain ⟨file, hread, hopen⟩ := exists_rowFile hparse rfl (by decide)
  have hstart : ∃ c, encodeStart stackEncoder zeroHeap .accepting (plainOptions 1200)
      (cupsRaster (rowRaster 2147483649 1 268435457 3) (rowFields 2147483649 1 268435457 3)
        .black1) = some c :=
    exists_encodeStart zeroHeap_succeeds (fun _ => rfl) (by decide) rfl (by decide) (by decide) _
  obtain ⟨c, hstart⟩ := hstart
  obtain ⟨hinput, hupscale, hwidth, -, hrc, hinside⟩ := encodeStart_some hstart
  have hdoubled : c.upscale = true := hupscale.trans (by decide)
  have hpixels : c.input.width.toNat = 2147483649 := by
    rw [hinput]
    rfl
  have htwo : c.outWidth.toNat = 2 := by
    rw [hwidth, hdoubled]
    rfl
  refine ⟨file, _, hopen, ?_, c, hstart, ?_, fun srgbGray => ?_⟩
  · intro y hy
    obtain rfl : y = 0 := Nat.lt_one_iff.mp hy
    show 1800 + 0 * 268435457 + 268435457 ≤ (rowRaster 2147483649 1 268435457 3).length
    rw [length_rowRaster]
    decide
  · rw [htwo]
    decide
  · have hgray : c.input.bilevel = false := by
      rw [hinput]
      rfl
    refine ⟨⟨2, 1, c.gray2.length⟩, ?_, ?_⟩
    · have hmem : (⟨2, 1, c.gray2.length⟩ : Access) ∈
          upscaleWrites c.input.width.toNat c.gray2.length := by
        refine List.mem_flatMap.mpr ⟨1, List.mem_range.mpr ?_, List.mem_cons_self⟩
        rw [hpixels]
        decide
      rw [encodeLine, if_neg (not_not_intro hrc), hgray, if_neg Bool.false_ne_true]
      refine List.mem_append_left _ (List.mem_append_left _ (List.mem_append_right _ ?_))
      rw [if_pos hdoubled]
      exact hmem
    · show ¬2 + 1 ≤ c.gray2.length
      rw [hinside.length_gray2, htwo]
      decide

end Airbridge.Cli
