import Airbridge.Qpdl.Band
import Airbridge.Qpdl.ChooseTable
import Airbridge.Qpdl.Walk

/-!
# The job encoder

`encode.c`: the PJL envelope, pages line by line, end of page and end of job.
Every call returns its code and the encoder it leaves behind, also when it
fails.

The sink is part of the state: it is the answers it will give, call after
call, and the bytes it accepted so far.  The page workspace is one block of
memory, and `rows`, `band` and `payload` are offsets into it.  A C string is
the list of its bytes before the NUL, and only pointers that the code compares
with `NULL` are options.  `M2022_QPDL_BAND_LINES` is 128.
-/

namespace Airbridge.Qpdl

abbrev FEEDER_AUTO : UInt8 := 1
abbrev FEEDER_MANUAL : UInt8 := 2

abbrev DUPLEX_OFF : Nat := 0
abbrev DUPLEX_MANUAL_LONG_EDGE : Nat := 1
abbrev DUPLEX_MANUAL_SHORT_EDGE : Nat := 2

/-- `m2022_qpdl_job_t`. -/
structure QpdlJob where
  paperCode : UInt8
  paperWidthPt : Int
  paperHeightPt : Int
  dpi : Nat
  feeder : UInt8
  paperType : Option Bytes
  duplex : Nat
  skipBlankPages : Bool
  copies : UInt16
  serviceDate : Option Bytes
  producer : Option Bytes
deriving Repr, DecidableEq

def qpdlJobDefault : QpdlJob where
  paperCode := 0x02
  paperWidthPt := 595
  paperHeightPt := 842
  dpi := 600
  feeder := FEEDER_AUTO
  paperType := some (ascii "OFF")
  duplex := DUPLEX_OFF
  skipBlankPages := false
  copies := 1
  serviceDate := none
  producer := none

/-! ## The sink -/

/-- `m2022_qpdl_sink_fn` and its context.  `answer n` is what call `n`
returns; a call that does not return 0 accepts nothing.  `offered` is the data
of every call. -/
structure Sink where
  answer : Nat → Int
  calls : Nat := 0
  offered : List Bytes := []
  accepted : Bytes := []

def Sink.write (s : Sink) (data : Bytes) : Int × Sink :=
  (s.answer s.calls,
    { s with
      calls := s.calls + 1
      offered := s.offered ++ [data]
      accepted := if s.answer s.calls = 0 then s.accepted ++ data else s.accepted })

/-- The sink that accepts every write. -/
def Sink.accepting : Sink := { answer := fun _ => 0 }

/-! ## The encoder state -/

/-- `m2022_qpdl_encoder_t`; the defaults are what `memset` leaves. -/
structure Encoder where
  job : QpdlJob
  sink : Sink
  width : Nat := 0
  bandWidth : UInt16 := 0
  bytesPerRow : Nat := 0
  rowBytesUsed : Nat := 0
  lines : Nat := 0
  bandNumber : Nat := 0
  workspace : Bytes := []
  rows : Nat := 0
  band : Nat := 0
  payload : Nat := 0
  payloadCap : Nat := 0
  inJob : Bool := false
  inPage : Bool := false
  pages : Nat := 0
  bandsWritten : Nat := 0
  bandsBlank : Nat := 0
  bytesOut : Nat := 0

/-- A counter of 32 bits. -/
def u32 (n : Nat) : Nat := n % 2 ^ 32

/-- A `size_t`. -/
def u64 (n : Nat) : Nat := n % 2 ^ 64

/-- `if ((rc = r) != 0) return rc;` and what follows. -/
def orReturn (r : Int × Encoder) (next : Encoder → Int × Encoder) : Int × Encoder :=
  if r.1 ≠ 0 then r else next r.2

def Encoder.emit (e : Encoder) (data : Bytes) : Int × Encoder :=
  let w := e.sink.write data
  (w.1,
    { e with
      sink := w.2
      bytesOut := if w.1 = 0 then u64 (e.bytesOut + data.length) else e.bytesOut })

/-- `line` is the text `vsnprintf` has formatted. -/
def Encoder.emitf (e : Encoder) (line : Bytes) : Int × Encoder :=
  if line.length ≥ 256 then (EINVAL, e) else e.emit line

/-- `emitf` behind the test that a string is there. -/
def Encoder.emitfSome (e : Encoder) (s : Option Bytes) (line : Bytes → Bytes) : Int × Encoder :=
  match s with
  | none => (OK, e)
  | some s => e.emitf (line s)

/-- `emitf` behind a test. -/
def Encoder.emitfIf (e : Encoder) (c : Bool) (line : Bytes) : Int × Encoder :=
  if c then e.emitf line else (OK, e)

/-! ## Begin of job -/

/-- Printable and 1 to `max` characters long. -/
def plainText (s : Bytes) (max : Nat) : Bool :=
  let n := min s.length (max + 1)
  if n = 0 ∨ n > max then false
  else (s.take n).all fun c => !(c < 0x20 || c > 0x7e)

/-- The argument checks of `m2022_qpdl_begin_job`. -/
def QpdlJob.refused (job : QpdlJob) : Bool :=
  (job.dpi ≠ 600 && job.dpi ≠ 1200) ||
  (job.feeder ≠ FEEDER_AUTO && job.feeder ≠ FEEDER_MANUAL) ||
  !job.paperType.any (plainText · 32) || job.copies = 0 ||
  job.paperWidthPt ≤ 0 || job.paperHeightPt ≤ 0 ||
  job.duplex > DUPLEX_MANUAL_SHORT_EDGE ||
  job.serviceDate.any (fun s => !plainText s 8) ||
  job.producer.any (fun s => !plainText s 128)

def qpdlBeginJob (e : Encoder) (job : QpdlJob) (sink : Sink) : Int × Encoder :=
  if job.refused then (EINVAL, e)
  else
    let e : Encoder := { job := job, sink := sink, inJob := true }
    orReturn (e.emit uel) fun e =>
    orReturn (e.emitfSome job.serviceDate fun s =>
      ascii "@PJL DEFAULT SERVICEDATE=" ++ s ++ crlf) fun e =>
    orReturn (e.emitf (ascii "@PJL COMMENT Model Name : Samsung M2020 Series" ++ crlf)) fun e =>
    orReturn (e.emitfSome job.producer fun s =>
      ascii "@PJL COMMENT Producer : " ++ s ++ crlf) fun e =>
    orReturn (e.emitf (ascii "@PJL SET XIGNOREFF=" ++
      ascii (if job.skipBlankPages then "ON" else "OFF") ++ crlf ++ crlf)) fun e =>
    orReturn (e.emitf (ascii "@PJL SET RESOLUTION = " ++ ascii (toString job.dpi) ++ crlf)) fun e =>
    orReturn (e.emitfIf (job.dpi = 600) (ascii "@PJL SET BITSPERPIXEL = 1" ++ crlf)) fun e =>
    orReturn (e.emitf (ascii "@PJL SET PAPERTYPE = " ++ job.paperType.getD [] ++ crlf)) fun e =>
    orReturn (e.emitf (ascii "@PJL SET DUPLEX = " ++
      ascii (if job.duplex = DUPLEX_OFF then "OFF" else "MANUAL") ++ crlf)) fun e =>
    orReturn (e.emitfIf (job.duplex ≠ DUPLEX_OFF) (ascii "@PJL SET BINDING = " ++
      ascii (if job.duplex = DUPLEX_MANUAL_LONG_EDGE then "LONGEDGE" else "SHORTEDGE") ++
        crlf)) fun e =>
    e.emitf (ascii "@PJL ENTER LANGUAGE=QPDL" ++ crlf)

/-! ## Pages -/

def qpdlPaperDots (points : Int) (dpi : Nat) : UInt16 :=
  let perInch : Int := if dpi = 1200 then 150 else 300
  let dots := (points * perInch + 36).tdiv 72
  if dots < 0 then 0 else if dots > 65535 then 65535 else UInt16.ofNat dots.toNat

/-- The bytes of the row buffer and of the band buffer. -/
def bandBytes (width : Nat) : Nat := (width + 255) / 256 * 256 / 8 * 128

def qpdlEncoderWorkspaceBytes (width : Nat) : Nat :=
  bandBytes width + bandBytes width + codec11EncodeBound (bandBytes width)

/-- The page header a page of this job opens with. -/
def QpdlJob.pageHeader (job : QpdlJob) : PageHeader where
  yRes100 := UInt8.ofNat (job.dpi / 100)
  copies := job.copies
  paperCode := job.paperCode
  paperWidth := qpdlPaperDots job.paperWidthPt job.dpi
  paperHeight := qpdlPaperDots job.paperHeightPt job.dpi
  feeder := job.feeder
  reservedA := 0
  duplex := 0
  tumble := 0
  reservedD := 0
  qpdlVersion := 3
  reservedF := 1
  xRes100 := UInt8.ofNat (job.dpi / 100)

/-- The encoder `m2022_qpdl_begin_page` sets up for a page. -/
def Encoder.openPage (e : Encoder) (width : Nat) (workspace : Bytes) : Encoder :=
  let bandWidth := UInt16.ofNat ((width + 255) / 256 * 256)
  let bytesPerRow := bandWidth.toNat / 8
  let size := bytesPerRow * 128
  { e with
    width := width
    bandWidth := bandWidth
    bytesPerRow := bytesPerRow
    rowBytesUsed := (width + 7) / 8
    rows := 0
    band := size
    payload := size + size
    payloadCap := codec11EncodeBound size
    workspace := Buffer.store workspace 0 (List.replicate size 0)
    lines := 0
    bandNumber := 0
    inPage := true }

def qpdlBeginPage (e : Encoder) (width : Nat) (workspace : Option Bytes) : Int × Encoder :=
  if !e.inJob || e.inPage then (ESTATE, e)
  else if width = 0 ∨ width > 65280 then (ERANGE, e)
  else match workspace with
  | none => (EINVAL, e)
  | some workspace =>
    if workspace.length < qpdlEncoderWorkspaceBytes width then (EINVAL, e)
    else (e.openPage width workspace).emit (writePageHeader e.job.pageHeader)

/-- The part of `flush_band` behind the encoder: the header, the `n` bytes of
the payload, and the row buffer cleared for the next band. -/
def sendBand (e : Encoder) (n : Nat) : Int × Encoder :=
  let h : BandHeader :=
    { number := UInt8.ofNat e.bandNumber
      width := e.bandWidth
      height := 128
      compression := COMPRESSION_0X11
      length := UInt32.ofNat n }
  orReturn (e.emit (writeBandHeader h)) fun e =>
  orReturn (e.emit (Buffer.load e.workspace e.payload n)) fun e =>
  (OK, { e with
    workspace := Buffer.store e.workspace e.rows (List.replicate (e.bytesPerRow * 128) 0)
    bandsWritten := u32 (e.bandsWritten + 1)
    bandNumber := e.bandNumber + 1 })

/-- Encode and write the band in `rows`, or skip it when it is all white. -/
def flushBand (e : Encoder) : Int × Encoder :=
  let size := e.bytesPerRow * 128
  let rows := Buffer.load e.workspace e.rows size
  if e.bandNumber > 255 then (ERANGE, e)
  else if rows.all (· == 0) then
    (OK, { e with bandsBlank := u32 (e.bandsBlank + 1), bandNumber := e.bandNumber + 1 })
  else
    let band := rowsToBand rows e.bytesPerRow (Buffer.load e.workspace e.band size)
    let r := codec11Encode band (codec11ChooseTable band) e.payloadCap
    let e := { e with
      workspace := Buffer.store (Buffer.store e.workspace e.band band) e.payload r.out }
    if r.rc ≠ 0 then (r.rc, e) else sendBand e r.out.length

/-- `memcpy` of the row's bytes and the mask over its last one; `row` is its
offset. -/
def Encoder.putRow (e : Encoder) (row : Nat) (bits : Bytes) : Bytes :=
  let workspace := Buffer.store e.workspace row (bits.take e.rowBytesUsed)
  if e.width % 8 ≠ 0 then
    let last := row + e.rowBytesUsed - 1
    Buffer.store workspace last
      [byteAt workspace last &&& UInt8.ofNat (0xFF <<< (8 - e.width % 8))]
  else workspace

/-- The row in its place and the line counted. -/
def Encoder.bufferLine (e : Encoder) (bits : Bytes) : Encoder :=
  { e with
    workspace := e.putRow (e.rows + e.lines % 128 * e.bytesPerRow) bits
    lines := u32 (e.lines + 1) }

def qpdlWriteLine (e : Encoder) (bits : Option Bytes) : Int × Encoder :=
  if !e.inPage then (ESTATE, e)
  else match bits with
  | none => (EINVAL, e)
  | some bits =>
    let e := e.bufferLine bits
    if e.lines % 128 = 0 then flushBand e else (OK, e)

def Encoder.pageClosed (e : Encoder) : Encoder :=
  { e with inPage := false, pages := u32 (e.pages + 1) }

/-- The part of `m2022_qpdl_end_page` behind the last flush. -/
def closePage (e : Encoder) : Int × Encoder := e.pageClosed.emit (writeEndPage e.job.copies)

def qpdlEndPage (e : Encoder) : Int × Encoder :=
  if !e.inPage then (ESTATE, e)
  else if e.lines % 128 ≠ 0 then orReturn (flushBand e) closePage
  else closePage e

/-! ## End of job -/

def Encoder.jobClosed (e : Encoder) : Encoder := { e with inJob := false }

def qpdlEndJob (e : Encoder) : Int × Encoder :=
  if !e.inJob || e.inPage then (ESTATE, e)
  else orReturn (e.jobClosed.emit [REC_END_JOB]) fun e => e.emit uel

end Airbridge.Qpdl
