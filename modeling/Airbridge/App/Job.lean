import Airbridge.App.Jobmap
import Airbridge.Lib.Memory
import Airbridge.Qpdl.Encoder
import Airbridge.Raster.Convert

/-!
# The raster callbacks

The print pipeline of `app.c`: PAPPL starts a job, hands over its pages line
by line, and ends the job.  A callback returns its result and the job it
leaves behind, also when it fails.

The device is the encoder's sink.  The blocks a page works in belong to the
job: what the encoder and the halftoner leave in theirs is there when the next
page gets them.  Logging and the optional capture of the client's pages are
left out, and the allocation of `job_t` itself succeeds.
-/

namespace Airbridge.App

open Airbridge.Qpdl Airbridge.Halftone Airbridge.Raster Memory

/-! ## What PAPPL and the process provide -/

/-- `pappl_content_t`, as far as `content_from` tells its values apart. -/
inductive PapplContent where
  | text
  | photo
  | graphic
  | textAndGraphic
  | other
deriving Repr, DecidableEq

def contentFrom : PapplContent → Content
  | .text => .text
  | .photo => .photo
  | .graphic => .graphic
  | .textAndGraphic => .textAndGraphic
  | .other => .auto

abbrev CUPS_CSPACE_W : Nat := 0
abbrev CUPS_CSPACE_K : Nat := 3
abbrev CUPS_CSPACE_SW : Nat := 18

/-- The fields of `cups_page_header2_t` the callbacks read. -/
structure CupsHeader where
  cupsWidth : Nat
  cupsHeight : Nat
  cupsBitsPerPixel : Nat
  cupsColorSpace : Nat
  hwResolution : Nat × Nat
deriving Repr, DecidableEq

/-- The fields of `pappl_pr_options_t` the callbacks read. -/
structure PrOptions where
  header : CupsHeader
  mediaSizeName : Bytes
  mediaSource : Bytes
  mediaType : Bytes
  printContentOptimize : PapplContent
  printQuality : Int
  copies : Int
deriving Repr, DecidableEq

/-- The process around the job: today's date as `strftime` writes it, the ink
table `m2022_tone_build` makes for each preset, and the gray of an sRGB
pixel. -/
structure Host where
  date : Bytes
  toneBuild : Preset → ToneLut
  srgbGray : UInt8 → UInt8 → UInt8 → UInt8

def versionString : Bytes := ascii "0.1.0"

/-- `snprintf` into 64 bytes. -/
def producerText : Bytes := (ascii "M2022 AirBridge " ++ versionString).take 63

/-! ## The job -/

/-- `job_t`; the defaults are what `calloc` leaves. -/
structure JobT where
  host : Host
  heap : Heap UInt8
  enc : Encoder
  media : Option Media := none
  jobOpen : Bool := false
  pageOpen : Bool := false
  hp : HtParams := ⟨.threshold, 0, 0⟩
  lut : ToneLut := ⟨List.replicate 256 0, length_zeroEntries⟩
  ht : Halftoner := { params := ⟨.threshold, 0, 0⟩, width := 0 }
  htState : Option (List Int) := none
  geo : JobmapGeometry := {}
  fmt : PixelFormat := .sgray8
  rasterWidth : Nat := 0
  grayFull : Option Bytes := none
  gray : Option Bytes := none
  ink : Option Bytes := none
  bits : Option Bytes := none
  workspace : Option Bytes := none
  allocRasterWidth : Nat := 0
  allocWidth : Nat := 0
  linesIn : Nat := 0

/-- The encoder in a job that was just allocated. -/
def zeroEncoder (device : Sink) : Encoder where
  job := {
    paperCode := 0
    paperWidthPt := 0
    paperHeightPt := 0
    dpi := 0
    feeder := 0
    paperType := none
    duplex := 0
    skipBlankPages := false
    copies := 0
    serviceDate := none
    producer := none }
  sink := device

/-- The QPDL job of a print job. -/
def qpdlJob (host : Host) (media : Media) (options : PrOptions) : QpdlJob :=
  let copies := if options.copies > 0 then options.copies else 1
  { qpdlJobDefault with
    paperCode := media.qpdlCode
    paperWidthPt := media.widthPt
    paperHeightPt := media.heightPt
    dpi := 600
    feeder := jobmapFeeder options.mediaSource
    paperType := some (jobmapPaperType options.mediaType)
    copies := UInt16.ofNat (if copies > 65535 then 65535 else copies.toNat)
    serviceDate := some host.date
    producer := some producerText }

def cbRstartjob (host : Host) (heap : Heap UInt8) (options : PrOptions) (device : Sink) :
    Bool × JobT :=
  let j : JobT := { host := host, heap := heap, enc := zeroEncoder device }
  match mediaByPwg options.mediaSizeName with
  | none => (false, j)
  | some media =>
    let p := jobmapPreset options.printQuality (contentFrom options.printContentOptimize)
    let r := qpdlBeginJob j.enc (qpdlJob host media options) device
    let j := { j with
      media := some media
      hp := preset p
      lut := host.toneBuild p
      enc := r.2 }
    if r.1 ≠ 0 then (false, j) else (true, { j with jobOpen := true })

/-! ## Pages -/

def pageBuffers (j : JobT) (rasterWidth width : Nat) : Bool × JobT :=
  if j.allocRasterWidth = rasterWidth ∧ j.allocWidth = width then (true, j)
  else
    let grayFull := j.heap.malloc rasterWidth
    let gray := grayFull.2.malloc width
    let ink := gray.2.malloc width
    let bits := ink.2.malloc ((width + 7) / 8)
    let htState := bits.2.malloc (halftonerStateBytes width)
    let workspace := htState.2.malloc (qpdlEncoderWorkspaceBytes width)
    let j := { j with
      grayFull := grayFull.1
      gray := gray.1
      ink := ink.1
      bits := bits.1
      htState := htState.1.map int16Cells
      workspace := workspace.1
      heap := workspace.2 }
    if j.grayFull = none ∨ j.gray = none ∨ j.ink = none ∨ j.bits = none ∨ j.htState = none ∨
        j.workspace = none then (false, j)
    else (true, { j with allocRasterWidth := rasterWidth, allocWidth := width })

/-- The pixel format of a raster the printer driver takes. -/
def CupsHeader.pixelFormat (h : CupsHeader) : Option PixelFormat :=
  if h.cupsBitsPerPixel = 8 ∧
      (h.cupsColorSpace = CUPS_CSPACE_SW ∨ h.cupsColorSpace = CUPS_CSPACE_W) then some .sgray8
  else if h.cupsBitsPerPixel = 8 ∧ h.cupsColorSpace = CUPS_CSPACE_K then some .black8
  else if h.cupsBitsPerPixel = 1 ∧ h.cupsColorSpace = CUPS_CSPACE_K then some .black1
  else none

/-- The memory of a page: its buffers and a fresh halftoner over them. -/
def pageMemory (j : JobT) : Bool × JobT :=
  let b := pageBuffers j j.rasterWidth j.geo.width
  if !b.1 then (false, b.2)
  else
    let r := halftonerInit b.2.hp b.2.geo.width b.2.htState
    (r.1 = 0, { b.2 with ht := r.2 })

/-- The part of `cb_rstartpage` in front of the encoder: `true` when it gets
there. -/
def preparePage (j : JobT) (h : CupsHeader) : Bool × JobT :=
  let j := { j with linesIn := 0, rasterWidth := h.cupsWidth }
  match h.pixelFormat with
  | none => (false, j)
  | some fmt =>
    let j := { j with fmt := fmt }
    if h.hwResolution ≠ (600, 600) then (false, j)
    else
      let g := jobmapGeometry j.media 600 h.cupsWidth h.cupsHeight
      let j := { j with geo := g.2 }
      if !g.1 then (false, j) else pageMemory j

def cbRstartpage (j : JobT) (options : PrOptions) : Bool × JobT :=
  if !j.jobOpen then (false, j)
  else
    let p := preparePage j options.header
    if !p.1 then (false, p.2)
    else
      let r := qpdlBeginPage p.2.enc p.2.geo.width p.2.workspace
      let j := { p.2 with enc := r.2 }
      if r.1 ≠ 0 then (false, j) else (true, { j with pageOpen := true })

/-! ## Lines -/

/-- The line is one the printer can reach. -/
def JobmapGeometry.covers (g : JobmapGeometry) (y : Nat) : Bool := g.y0 ≤ y && y < g.y0 + g.height

/-- The line as packed bits, through the buffers of the page. -/
def convertLine (j : JobT) (y : Nat) (line : Bytes) : JobT :=
  let grayFull := rasterLineToGray j.host.srgbGray j.fmt line j.rasterWidth (j.grayFull.getD [])
  let gray := rasterFitLine grayFull j.rasterWidth j.geo.x0 (j.gray.getD []) j.geo.width 255
  let ink := toneApply j.lut gray j.geo.width (j.ink.getD [])
  let r := halftoneLine j.ht ink (y - j.geo.y0) (j.bits.getD [])
  { j with
    grayFull := some grayFull
    gray := some gray
    ink := some ink
    bits := some r.2
    ht := r.1
    htState := if r.1.errCur.isSome then some r.1.state else j.htState }

/-- The job behind an encoder call that works in the job's workspace. -/
def JobT.encoded (j : JobT) (e : Encoder) : JobT :=
  { j with enc := e, workspace := some e.workspace }

def cbRwriteline (j : JobT) (y : Nat) (line : Bytes) : Bool × JobT :=
  if !j.pageOpen then (false, j)
  else if !j.geo.covers y then (true, j)
  else
    let j := convertLine j y line
    let r := qpdlWriteLine j.enc j.bits
    let j := j.encoded r.2
    if r.1 ≠ 0 then (false, j) else (true, { j with linesIn := j.linesIn + 1 })

/-! ## The ends -/

def cbRendpage (j : JobT) : Bool × JobT :=
  if !j.pageOpen then (false, j)
  else
    let j := { j with pageOpen := false }
    let r := qpdlEndPage j.enc
    (r.1 = 0, j.encoded r.2)

/-- The page that is open when a job is cancelled is ended like any other. -/
def cancelPage (j : JobT) : Bool × JobT := if j.pageOpen then cbRendpage j else (true, j)

/-- The job is freed at the end; the one returned is what it was then. -/
def cbRendjob (j : JobT) : Bool × JobT :=
  let p := cancelPage j
  if p.2.jobOpen then
    let r := qpdlEndJob p.2.enc
    (if r.1 ≠ 0 then false else p.1, { p.2 with jobOpen := false, enc := r.2 })
  else p

end Airbridge.App
