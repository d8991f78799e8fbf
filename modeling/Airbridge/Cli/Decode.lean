import Airbridge.Lib.Memory
import Airbridge.Lib.Run
import Airbridge.Qpdl.Band
import Airbridge.Qpdl.Codec11
import Airbridge.Qpdl.Walk

/-!
# The decode command

`cmd_decode.c`: walk a job, decode every band, and with `--pbm PREFIX` write
each page as a bitmap at its end-of-page record.  The context keeps one buffer
for a decoded band and one for the rows of a page; both are allocated when
there is none or when the bytes per row change.

Every access to these two buffers is recorded with the size of the buffer it
goes to.  A model state behind an access outside its buffer is not a state of
the program any more, so statements about runs are about the record as well.
The printed report, and the counters only it reads, are left out.
-/

namespace Airbridge.Cli

open Airbridge.Qpdl Memory

/-- A bitmap file: `P4`, width and height, and the packed rows. -/
structure Pbm where
  path : Bytes
  width : UInt16
  height : Nat
  rows : Bytes
deriving Repr, DecidableEq

/-- `decode_ctx_t`, with the outside world: the allocator, the answer of each
`fopen` and the files written. -/
structure DecodeCtx where
  pbmPrefix : Option Bytes
  heap : Heap UInt8
  canOpen : Nat → Bool
  opened : Nat := 0
  pages : Nat := 0
  errors : Nat := 0
  bandWidth : UInt16 := 0
  maxBand : Int := 0
  /-- The rows of 256 bands. -/
  pageRows : Option Bytes := none
  bytesPerRow : Nat := 0
  /-- One decoded band. -/
  bandBuf : Option Bytes := none
  rowsBuf : Option Bytes := none
  files : List Pbm := []
  accesses : List Access := []

namespace DecodeCtx

def touch (d : DecodeCtx) (accesses : List Access) : DecodeCtx :=
  { d with accesses := d.accesses ++ accesses }

end DecodeCtx

def onPage (d : DecodeCtx) : DecodeCtx :=
  { d with pages := d.pages + 1, maxBand := -1, bandWidth := 0 }

/-- The fresh buffers for bands of `expect` bytes. -/
def allocate (d : DecodeCtx) (bpr expect : Nat) : DecodeCtx :=
  let band := d.heap.malloc expect
  let rows := band.2.malloc expect
  let page := if d.pbmPrefix.isSome then rows.2.calloc 0 (256 * expect) else (none, rows.2)
  { d with
    bytesPerRow := bpr
    bandBuf := band.1
    rowsBuf := rows.1
    pageRows := page.1
    heap := page.2 }

/-- What `m2022_qpdl_band_to_rows` reads from a band of `bandSize` bytes and
writes from byte `start` of a page of `pageSize` bytes on. -/
def bandToRowsAccesses (bpr start bandSize pageSize : Nat) : List Access :=
  (bandCells bpr).flatMap fun cell =>
    [⟨columnIndex cell, 1, bandSize⟩, ⟨start + rowIndex bpr cell, 1, pageSize⟩]

/-- The rows of a decoded band go to the place its number names. -/
def placeBand (d : DecodeCtx) (number : UInt8) (bpr expect : Nat) (band page : Bytes) : DecodeCtx :=
  let start := number.toNat * expect
  let placed := page.take start ++ bandToRows band bpr (page.drop start)
  let d := d.touch (bandToRowsAccesses bpr start band.length page.length)
  { d with
    pageRows := some placed
    maxBand := if (number.toNat : Int) > d.maxBand then number.toNat else d.maxBand }

/-- The part of `on_band` behind the buffers.  They are not null there. -/
def decodeBand (d : DecodeCtx) (h : BandHeader) (payload : Bytes) (bpr expect : Nat) : DecodeCtx :=
  let r := codec11Decode payload expect
  let band := Buffer.store (d.bandBuf.getD []) 0 r.out
  let d := { d.touch [⟨0, expect, band.length⟩] with bandBuf := some band }
  if r.rc ≠ OK ∨ r.out.length ≠ expect then { d with errors := d.errors + 1 }
  else match d.pageRows with
    | none => d
    | some page => placeBand d h.number bpr expect band page

def onBand (d : DecodeCtx) (h : BandHeader) (payload : Bytes) : DecodeCtx :=
  let bpr := h.width.toNat / 8
  let expect := bpr * h.height.toNat
  let d := { d with bandWidth := if d.bandWidth = 0 then h.width else d.bandWidth }
  if h.compression ≠ COMPRESSION_0X11 then d
  else if d.bandBuf = none ∨ d.bytesPerRow ≠ bpr then
    let d := allocate d bpr expect
    if d.bandBuf = none ∨ d.rowsBuf = none then { d with errors := d.errors + 1 }
    else decodeBand d h payload bpr expect
  else decodeBand d h payload bpr expect

/-- `snprintf` of `PREFIX-pN.pbm` into 1024 bytes. -/
def pbmPath (pbmPrefix : Bytes) (pages : Nat) : Bytes :=
  (pbmPrefix ++ ascii "-p" ++ ascii (toString pages) ++ ascii ".pbm").take 1023

/-- The file is open: write the rows of the page, and clear them. -/
def writePage (d : DecodeCtx) (page : Bytes) : DecodeCtx :=
  let height := (d.maxBand.toNat + 1) * 128
  let cleared := 256 * 128 * d.bytesPerRow
  let file : Pbm := {
    path := pbmPath (d.pbmPrefix.getD []) d.pages
    width := d.bandWidth
    height := height
    rows := page.take (height * d.bytesPerRow) }
  let d := d.touch [⟨0, height * d.bytesPerRow, page.length⟩, ⟨0, cleared, page.length⟩]
  { d with
    opened := d.opened + 1
    files := d.files ++ [file]
    pageRows := some (Buffer.store page 0 (List.replicate cleared 0)) }

def writePbm (d : DecodeCtx) : DecodeCtx :=
  match d.pageRows with
  | none => d
  | some page =>
    if d.maxBand < 0 then d
    else if d.canOpen d.opened then writePage d page
    else { d with opened := d.opened + 1, errors := d.errors + 1 }

/-- One callback of the walk. -/
def decodeStep (d : DecodeCtx) : Event → DecodeCtx
  | .pjlLine _ _ => d
  | .page _ _ => onPage d
  | .band _ h payload => onBand d h payload
  | .endPage _ _ => writePbm d
  | .endJob _ => d

def cmdDecode (d : DecodeCtx) (data : Bytes) : DecodeCtx :=
  let r := walk data
  let d := Run.run decodeStep d r.events
  { d with errors := if r.rc ≠ OK then d.errors + 1 else d.errors }

end Airbridge.Cli
