import Airbridge.Cli.EncodeJob
import Airbridge.Common.Pnm
import Airbridge.Qpdl.Canonical

/-!
# The render command

`cmd_render.c`: a page is halftoned into a bitmap, in one buffer with the rows
of the whole page, and the buffer is written as a file.

The rows are those that the encode command sends (`cmdRender_rows`), the file
is loaded back as a bitmap with these rows (`rasterOpen_pbm`), and so encoding
a rendered file is encoding the input (`cmdEncode_render`).
-/

namespace Airbridge.Cli

open Airbridge.Qpdl Airbridge.Halftone Airbridge.Raster Airbridge.App Airbridge.Common Memory

/-- The buffers of `cmd_render`. -/
structure RenderCtx where
  gray : Bytes
  ink : Bytes
  /-- The packed rows of the page. -/
  bits : Bytes
  ht : Halftoner
deriving Repr, DecidableEq

/-- The allocations of `cmd_render`; `none` is "out of memory". -/
def renderStart (heap : Heap UInt8) (p : HtParams) (r : CliRaster) : Option RenderCtx := do
  let width := r.width.toNat
  let gray := heap.malloc width
  let ink := gray.2.malloc width
  let bits := ink.2.calloc 0 ((width + 7) / 8 * r.height.toNat)
  let state := bits.2.malloc (halftonerStateBytes width)
  let gray ← gray.1
  let ink ← ink.1
  let bits ← bits.1
  let state ← state.1
  let ht := halftonerInit p width (some (int16Cells state))
  if ht.1 ≠ 0 then none else some { gray := gray, ink := ink, bits := bits, ht := ht.2 }

/-- One pass of the loop over the rows. -/
def renderRow (srgbGray : UInt8 → UInt8 → UInt8 → UInt8) (lut : ToneLut) (r : CliRaster)
    (c : RenderCtx) (y : Nat) : RenderCtx :=
  let width := r.width.toNat
  let bpr := (width + 7) / 8
  if r.bilevel then
    { c with bits := Buffer.store c.bits (y * bpr) (Buffer.load r.data (r.row y).start bpr) }
  else
    let gray := rasterLineToGray srgbGray r.fmt (r.data.drop (r.row y).start) width c.gray
    let ink := toneApply lut gray width c.ink
    let h := halftoneLine c.ht ink y (Buffer.load c.bits (y * bpr) bpr)
    { gray := gray
      ink := ink
      bits := Buffer.store c.bits (y * bpr) h.2
      ht := h.1 }

/-- `cmd_render` behind its arguments and the loading of the input: the exit
code and the bytes of the file. -/
def cmdRender (srgbGray : UInt8 → UInt8 → UInt8 → UInt8) (heap : Heap UInt8) (file : OutFile)
    (p : HtParams) (lut : ToneLut) (r : CliRaster) : Int × Bytes :=
  match renderStart heap p r with
  | none => (2, [])
  | some c =>
    let c := Run.run (renderRow srgbGray lut r) c (List.range r.height.toNat)
    let w := pbmWrite file r.width r.height c.bits
    (if w.1 ≠ 0 then 2 else 0, w.2)

/-! ## The rows -/

theorem renderStart_some {heap : Heap UInt8} {p : HtParams} {r : CliRaster} {c : RenderCtx}
    (h : renderStart heap p r = some c) :
    c.gray.length = r.width.toNat ∧ c.ink.length = r.width.toNat ∧
      c.bits.length = (r.width.toNat + 7) / 8 * r.height.toNat ∧
      c.ht = freshHalftoner p r.width.toNat := by
  unfold renderStart at h
  simp only [Option.bind_eq_bind, Option.bind_eq_some_iff] at h
  obtain ⟨gray, hgray, ink, hink, bits, hbits, state, hstate, h⟩ := h
  split_ifs at h
  rw [← Option.some_inj.mp h]
  have hcells : (int16Cells state).length = 2 * (r.width.toNat + 2) := by
    rw [length_int16Cells, Heap.length_malloc hstate, halftonerStateBytes]
    omega
  exact ⟨Heap.length_malloc hgray, Heap.length_malloc hink, Heap.length_calloc hbits,
    by rw [halftonerInit_fresh p hcells]⟩

/-- The rows rendered so far, in front of the rest of the buffer. -/
structure Rendered (r : CliRaster) (rows : List Bytes) (c : RenderCtx) : Prop where
  length_gray : c.gray.length = r.width.toNat
  length_ink : c.ink.length = r.width.toNat
  ht_fits : c.ht.Fits r.width.toNat
  length_bits : c.bits.length = (r.width.toNat + 7) / 8 * r.height.toNat
  length_rows : ∀ row ∈ rows, row.length = (r.width.toNat + 7) / 8
  bits_eq : c.bits.take ((r.width.toNat + 7) / 8 * rows.length) = rows.flatten

/-- A row stored behind the rows so far. -/
theorem take_store_row {mem row : Bytes} {rows : List Bytes} {n : Nat} (hrow : row.length = n)
    (hroom : n * (rows.length + 1) ≤ mem.length) (h : mem.take (n * rows.length) = rows.flatten) :
    (Buffer.store mem (rows.length * n) row).take (n * (rows ++ [row]).length) =
      (rows ++ [row]).flatten := by
  have hle : rows.length * n + row.length ≤ mem.length := by
    rw [hrow, ← Nat.succ_mul, Nat.mul_comm]
    exact hroom
  have hfront : (mem.take (rows.length * n)).length = rows.length * n := by
    rw [List.length_take]
    omega
  rw [Buffer.store_eq hle, List.length_append, List.length_singleton, Nat.mul_add_one,
    Nat.mul_comm n, List.flatten_concat, ← h, Nat.mul_comm n]
  refine List.take_left' ?_
  rw [List.length_append, hfront, hrow]

section
variable {srgbGray : UInt8 → UInt8 → UInt8 → UInt8} {lut : ToneLut} {r : CliRaster}
  {rows : List Bytes} {c : RenderCtx}

theorem renderRow_bilevel (h : Rendered r rows c) (hbilevel : r.bilevel = true)
    (hrow : (r.row rows.length).Inside) (hlt : rows.length < r.height.toNat) :
    Rendered r (rows ++ [Buffer.load r.data (r.row rows.length).start r.rowBytes])
      (renderRow srgbGray lut r c rows.length) := by
  have hbytes : r.rowBytes = (r.width.toNat + 7) / 8 := by
    unfold CliRaster.rowBytes
    rw [hbilevel, if_pos rfl]
  have hlen : (Buffer.load r.data (r.row rows.length).start r.rowBytes).length = r.rowBytes :=
    Buffer.length_load_of_le hrow
  rw [hbytes] at hlen
  unfold renderRow
  rw [hbilevel, if_pos rfl, hbytes]
  refine ⟨h.length_gray, h.length_ink, h.ht_fits, ?_, ?_, ?_⟩
  · rw [Buffer.length_store, h.length_bits]
  · intro row hmem
    rcases List.mem_append.mp hmem with hmem | hmem
    · exact h.length_rows row hmem
    · rw [List.mem_singleton.mp hmem, hlen]
  · refine take_store_row hlen ?_ h.bits_eq
    rw [h.length_bits]
    exact Nat.mul_le_mul_left _ hlt

variable (srgbGray lut) in
theorem renderRow_gray (h : Rendered r rows c) (hgray : r.bilevel = false)
    (hlt : rows.length < r.height.toNat) :
    let line := halftoneLine c.ht (inkRow srgbGray lut r false rows.length) rows.length
      (List.replicate ((c.ht.width + 7) / 8) 0)
    Rendered r (rows ++ [line.2]) (renderRow srgbGray lut r c rows.length) ∧
      (renderRow srgbGray lut r c rows.length).ht = line.1 := by
  intro line
  have hroom : (r.width.toNat + 7) / 8 * (rows.length + 1) ≤ c.bits.length := by
    rw [h.length_bits]
    exact Nat.mul_le_mul_left _ hlt
  have hslice : (Buffer.load c.bits (rows.length * ((r.width.toNat + 7) / 8))
      ((r.width.toNat + 7) / 8)).length = (c.ht.width + 7) / 8 := by
    rw [h.ht_fits.width_eq]
    refine Buffer.length_load_of_le ?_
    rw [← Nat.succ_mul, Nat.mul_comm]
    exact hroom
  have hlen : line.2.length = (r.width.toNat + 7) / 8 := by
    rw [(length_halftoneLine c.ht _ rows.length _).1, List.length_replicate, h.ht_fits.width_eq]
  have hrow : (List.range r.width.toNat).map
      (pixelGray srgbGray r.fmt (r.data.drop (r.row rows.length).start)) =
        rasterLineToGray srgbGray r.fmt (r.data.drop (r.row rows.length).start) r.width.toNat
          c.gray :=
    (rasterLineToGray_eq srgbGray r.fmt _ h.length_gray).symm
  have hwidth : (rasterLineToGray srgbGray r.fmt (r.data.drop (r.row rows.length).start)
      r.width.toNat c.gray).length = r.width.toNat :=
    (length_rasterLineToGray _ _ _ _ _).trans h.length_gray
  have hink : toneApply lut (rasterLineToGray srgbGray r.fmt
      (r.data.drop (r.row rows.length).start) r.width.toNat c.gray) r.width.toNat c.ink =
        inkRow srgbGray lut r false rows.length := by
    have htone := toneApply_eq lut (h.length_ink.trans hwidth.symm)
    rw [hwidth] at htone
    unfold inkRow
    dsimp only
    rw [htone, if_neg Bool.false_ne_true, if_neg Bool.false_ne_true, hrow]
    rfl
  have hline : halftoneLine c.ht (inkRow srgbGray lut r false rows.length) rows.length
      (Buffer.load c.bits (rows.length * ((r.width.toNat + 7) / 8)) ((r.width.toNat + 7) / 8)) =
        line := halftoneLine_bits _ _ _ hslice
  unfold renderRow
  rw [hgray, if_neg Bool.false_ne_true]
  dsimp only
  rw [hink, hline]
  refine ⟨⟨hwidth, ?_, ?_, ?_, ?_, take_store_row hlen hroom h.bits_eq⟩, rfl⟩
  · rw [← hink, length_toneApply, h.length_ink]
  · exact halftoneLine_fits h.ht_fits _ _ _
  · rw [Buffer.length_store, h.length_bits]
  · intro row hmem
    rcases List.mem_append.mp hmem with hmem | hmem
    · exact h.length_rows row hmem
    · rw [List.mem_singleton.mp hmem, hlen]

theorem renderRows_bilevel (h : Rendered r rows c) (hbilevel : r.bilevel = true)
    (hrows : r.RowsInside) (n : Nat) (hle : rows.length + n ≤ r.height.toNat) :
    Rendered r (rows ++ (List.range' rows.length n).map fun y =>
        Buffer.load r.data (r.row y).start r.rowBytes)
      (Run.run (renderRow srgbGray lut r) c (List.range' rows.length n)) := by
  induction n generalizing rows c with
  | zero => simpa using h
  | succ n ih =>
    have hrow : Rendered r _ (renderRow srgbGray lut r c rows.length) :=
      renderRow_bilevel h hbilevel (hrows _ (by omega)) (by omega)
    have hrest := ih hrow (by simpa [Nat.add_assoc, Nat.add_comm 1 n] using hle)
    rw [List.length_append, List.length_singleton, List.append_assoc] at hrest
    exact hrest

theorem renderRows_gray (h : Rendered r rows c) (hgray : r.bilevel = false) (n : Nat)
    (hle : rows.length + n ≤ r.height.toNat) :
    Rendered r (rows ++ halftoneRows c.ht rows.length
        ((List.range' rows.length n).map (inkRow srgbGray lut r false)))
      (Run.run (renderRow srgbGray lut r) c (List.range' rows.length n)) := by
  induction n generalizing rows c with
  | zero => simpa [halftoneRows] using h
  | succ n ih =>
    obtain ⟨hrow, hht⟩ := renderRow_gray srgbGray lut h hgray (by omega)
    have hrest := ih hrow (by simpa [Nat.add_assoc, Nat.add_comm 1 n] using hle)
    rw [hht, List.length_append, List.length_singleton, List.append_assoc] at hrest
    exact hrest

end

/-- The buffer behind the loop holds the rows of the page, one behind the
other. -/
theorem renderRows_eq (srgbGray : UInt8 → UInt8 → UInt8 → UInt8) {heap : Heap UInt8} {p : HtParams}
    (lut : ToneLut) {r : CliRaster} {c : RenderCtx} (h : renderStart heap p r = some c)
    (hrows : r.RowsInside) :
    (Run.run (renderRow srgbGray lut r) c (List.range r.height.toNat)).bits =
        (pageRows srgbGray p lut r false).flatten ∧
      ∀ row ∈ pageRows srgbGray p lut r false, row.length = (r.width.toNat + 7) / 8 := by
  obtain ⟨hgray, hink, hbits, hht⟩ := renderStart_some h
  have hfits : c.ht.Fits r.width.toNat := by
    rw [hht]
    exact freshHalftoner_fits p _
  have hstart : Rendered r [] c :=
    ⟨hgray, hink, hfits, hbits, fun row hrow => absurd hrow List.not_mem_nil, rfl⟩
  have hrendered : Rendered r (pageRows srgbGray p lut r false)
      (Run.run (renderRow srgbGray lut r) c (List.range r.height.toNat)) := by
    unfold pageRows outSize
    rw [if_neg Bool.false_ne_true, if_neg Bool.false_ne_true]
    simp only [List.range_eq_range']
    cases hbilevel : r.bilevel with
    | true =>
      rw [if_pos rfl]
      exact renderRows_bilevel hstart hbilevel hrows _ (Nat.zero_add _).le
    | false =>
      rw [if_neg Bool.false_ne_true, ← hht]
      exact renderRows_gray hstart hbilevel _ (Nat.zero_add _).le
  refine ⟨?_, hrendered.length_rows⟩
  have hbits := hrendered.bits_eq
  rw [length_pageRows] at hbits
  rw [← hbits]
  exact (List.take_of_length_le hrendered.length_bits.le).symm

/-! ## The file -/

/-- A bitmap that was loaded: the rows of `rows`. -/
structure LoadedBitmap (width height : UInt32) (rows : Bytes) (r : CliRaster) : Prop where
  bilevel_eq : r.bilevel = true
  width_eq : r.width = width
  height_eq : r.height = height
  xDpi_eq : r.xDpi = 0
  inside : r.RowsInside
  row_eq : ∀ y < height.toNat, Buffer.load r.data (r.row y).start r.rowBytes =
    Buffer.load rows (y * ((width.toNat + 7) / 8)) ((width.toNat + 7) / 8)

/-- The file of a bitmap loads as that bitmap. -/
theorem rasterOpen_pbm {width height : UInt32} {rows : Bytes} (hwidth : 1 ≤ width.toNat)
    (hwrap : width.toNat + 7 < 2 ^ 32) (hheight : 1 ≤ height.toNat)
    (hrows : rows.length = (width.toNat + 7) / 8 * height.toNat) :
    ∃ r, rasterOpen (pbmHeader width height ++ rows) = some r ∧
      LoadedBitmap width height rows r := by
  have hparse := pnmParse_pbmHeader hwidth hheight hrows
  have hfirst : byteAt (pbmHeader width height ++ rows) 0 = 80 := by
    rw [pbmHeader_append]
    rfl
  have hlen : (pbmHeader width height ++ rows).length > 2 := by
    rw [pbmHeader_append]
    simp
  have hstride : ((width + 7) / 8).toNat = (width.toNat + 7) / 8 := by
    rw [UInt32.toNat_div, UInt32.toNat_add]
    exact congrArg (· / 8) (Nat.mod_eq_of_lt hwrap)
  have hend {y : Nat} (hy : y < height.toNat) :
      y * ((width.toNat + 7) / 8) + (width.toNat + 7) / 8 ≤ rows.length := by
    rw [hrows, ← Nat.succ_mul, Nat.mul_comm]
    exact Nat.mul_le_mul_left _ hy
  refine ⟨pnmRaster (pbmHeader width height ++ rows)
    ⟨4, width, height, 1, (pbmHeader width height).length, rows.length⟩, ?_, rfl, rfl, rfl, rfl,
    fun y hy => ?_, fun y hy => ?_⟩
  · unfold rasterOpen
    rw [if_pos ⟨hlen, hfirst⟩, hparse]
    rfl
  · show (pbmHeader width height).length + y * ((width + 7) / 8).toNat + (width.toNat + 7) / 8 ≤
      (pbmHeader width height ++ rows).length
    rw [hstride, List.length_append]
    have := hend hy
    omega
  · show Buffer.load (pbmHeader width height ++ rows)
      ((pbmHeader width height).length + y * ((width + 7) / 8).toNat) ((width.toNat + 7) / 8) = _
    rw [hstride, Buffer.load, List.drop_append, List.drop_of_length_le (by omega), List.nil_append,
      Nat.add_sub_cancel_left]
    rfl

/-- Rows that were stored one behind the other. -/
theorem map_load_flatten {rows : List Bytes} {n : Nat} (h : ∀ row ∈ rows, row.length = n) :
    (List.range rows.length).map (fun y => Buffer.load rows.flatten (y * n) n) = rows := by
  induction rows with
  | nil => rfl
  | cons row rows ih =>
    have hrow := h row List.mem_cons_self
    have hrest := ih fun row hmem => h row (List.mem_cons_of_mem _ hmem)
    have hfirst : Buffer.load (row :: rows).flatten (0 * n) n = row := by
      rw [Nat.zero_mul, Buffer.load, List.drop_zero, List.flatten_cons, List.take_left' hrow]
    have hbehind (y : Nat) : Buffer.load (row :: rows).flatten ((y + 1) * n) n =
        Buffer.load rows.flatten (y * n) n := by
      rw [Buffer.load, List.flatten_cons, List.drop_append, List.drop_of_length_le (by
        rw [hrow, Nat.succ_mul]
        omega), List.nil_append, hrow, Nat.succ_mul, Nat.add_sub_cancel]
      rfl
    rw [List.length_cons, List.range_succ_eq_map, List.map_cons, List.map_map, hfirst]
    refine congrArg (row :: ·) (Eq.trans (List.map_congr_left fun y _ => ?_) hrest)
    exact hbehind y

theorem length_flatten_rows {rows : List Bytes} {n : Nat} (h : ∀ row ∈ rows, row.length = n) :
    rows.flatten.length = n * rows.length := by
  rw [List.length_flatten, List.map_congr_left h, List.map_const', List.sum_replicate_nat,
    Nat.mul_comm]

/-- The page of a loaded bitmap has its rows. -/
theorem LoadedBitmap.pageRows_eq {width height : UInt32} {rows : List Bytes} {r : CliRaster}
    (h : LoadedBitmap width height rows.flatten r) (hheight : rows.length = height.toNat)
    (hrows : ∀ row ∈ rows, row.length = (width.toNat + 7) / 8)
    (srgbGray : UInt8 → UInt8 → UInt8 → UInt8) (p : HtParams) (lut : ToneLut) :
    pageRows srgbGray p lut r false = rows := by
  unfold pageRows outSize
  rw [h.bilevel_eq, if_pos rfl, if_neg Bool.false_ne_true, h.height_eq, ← hheight]
  refine Eq.trans (List.map_congr_left fun y hy => ?_) (map_load_flatten hrows)
  exact h.row_eq y (by rw [← hheight]; exact List.mem_range.mp hy)

/-! ## Rendering before encoding -/

theorem cmdRender_ok {srgbGray : UInt8 → UInt8 → UInt8 → UInt8} {heap : Heap UInt8} {file : OutFile}
    {p : HtParams} {lut : ToneLut} {r : CliRaster} {out : Bytes} (hrows : r.RowsInside)
    (h : cmdRender srgbGray heap file p lut r = (0, out)) :
    out = pbmHeader r.width r.height ++ (pageRows srgbGray p lut r false).flatten ∧
      ∀ row ∈ pageRows srgbGray p lut r false, row.length = (r.width.toNat + 7) / 8 := by
  unfold cmdRender at h
  cases hstart : renderStart heap p r with
  | none =>
    rw [hstart] at h
    simp at h
  | some c =>
    rw [hstart] at h
    obtain ⟨hbits, hlen⟩ := renderRows_eq srgbGray lut hstart hrows
    dsimp only at h
    rw [hbits] at h
    refine ⟨?_, hlen⟩
    obtain ⟨hcode, hout⟩ := Prod.ext_iff.mp h
    have hwritten : (pbmWrite file r.width r.height (pageRows srgbGray p lut r false).flatten).1 =
        0 := by
      by_contra hne
      simp [hne] at hcode
    have hsize := length_flatten_rows hlen
    rw [length_pageRows, outSize, if_neg Bool.false_ne_true] at hsize
    exact hout.symm.trans (pbmWrite_ok hsize hwritten)

/-- Pages with the same rows are the same picture. -/
theorem samePicture_of_rows {p q : Page} (hwidth : p.width = q.width) (hrows : p.rows = q.rows) :
    SamePicture p q := by
  have hbits : p.bits = q.bits := by
    unfold Page.bits
    rw [hwidth, hrows]
  refine ⟨fun y x => ?_, fun _ => by rw [hwidth]⟩
  rw [← getD_bits, ← getD_bits, hbits]

/-- Rendering first.  The file that the render command writes for an encodable
input at 600 dpi loads as a bitmap, rendering it again writes the same file,
and encoding it, with whatever halftone settings, gives the job that encoding
the input with the settings of the rendering gives. -/
theorem cmdEncode_render (srgbGray srgbGray' : UInt8 → UInt8 → UInt8 → UInt8)
    {heap : Heap UInt8} {file : OutFile} {o : EncodeOptions} {r : CliRaster} {out : Bytes}
    (hrows : r.RowsInside) (hencodable : Encodable o r) (hdpi : o.job.dpi ≠ 1200)
    (hpos : 1 ≤ r.height.toNat) (hheight : r.height.toNat ≤ 256 * 128)
    (hrender : cmdRender srgbGray heap file o.htParams o.lut r = (0, out)) :
    ∃ r', rasterOpen out = some r' ∧ r'.bilevel = true ∧
      (∀ heap' file' p lut out', cmdRender srgbGray' heap' file' p lut r' = (0, out') →
        out' = out) ∧
      ∀ (enc enc' : Encoder) (heap heap' : Heap UInt8) (sink sink' : Sink) (p : HtParams)
        (lut : ToneLut), heap.Succeeds → heap'.Succeeds → (∀ n, sink.answer n = 0) →
        (∀ n, sink'.answer n = 0) →
        ∃ e e' job, cmdEncode srgbGray enc heap sink o r = some (OK, e) ∧
          e.sink.accepted = sink.accepted ++ job ∧
          cmdEncode srgbGray' enc' heap' sink' ⟨o.job, p, lut⟩ r' = some (OK, e') ∧
          e'.sink.accepted = sink'.accepted ++ job := by
  have hplain (r : CliRaster) : upscales o.job r = false := by
    simp [upscales, hdpi]
  obtain ⟨hjob, -, hwidth, hle⟩ := hencodable
  rw [hplain, outSize, if_neg Bool.false_ne_true] at hwidth hle
  obtain ⟨hout, hlen⟩ := cmdRender_ok hrows hrender
  have hcount : (pageRows srgbGray o.htParams o.lut r false).length = r.height.toNat :=
    length_pageRows _ _ _ _ _
  obtain ⟨r', hopen, hloaded⟩ := rasterOpen_pbm hwidth (by omega) hpos
    ((length_flatten_rows hlen).trans (by rw [hcount]))
  have hsame := hloaded.pageRows_eq hcount hlen srgbGray'
  refine ⟨r', by rw [hout, hopen], hloaded.bilevel_eq, ?_, ?_⟩
  · intro heap' file' p lut out' hagain
    obtain ⟨hout', -⟩ := cmdRender_ok hloaded.inside hagain
    rw [hout', hout, hsame, hloaded.width_eq, hloaded.height_eq]
  · intro enc enc' heap heap' sink sink' p lut hheap hheap' hsink hsink'
    have hencodable : Encodable o r := by
      refine ⟨hjob, by rw [hplain, Bool.false_and], ?_⟩
      rw [hplain, outSize, if_neg Bool.false_ne_true]
      exact ⟨hwidth, hle⟩
    have hencodable' : Encodable ⟨o.job, p, lut⟩ r' := by
      refine ⟨hjob, by rw [hplain, Bool.false_and], ?_⟩
      rw [hplain, outSize, if_neg Bool.false_ne_true, hloaded.width_eq]
      exact ⟨hwidth, hle⟩
    obtain ⟨e, page, hrun, haccepted, hw, hr⟩ := cmdEncode_encodable srgbGray enc hheap hsink
      hencodable hrows (fun hup => absurd hup (by rw [hplain]; exact Bool.false_ne_true))
      (by rw [hplain]; exact hheight)
    obtain ⟨e', page', hrun', haccepted', hw', hr'⟩ := cmdEncode_encodable srgbGray' enc' hheap'
      hsink' hencodable' hloaded.inside
      (fun hup => absurd hup (by rw [hplain]; exact Bool.false_ne_true))
      (by rw [hplain, hloaded.height_eq]; exact hheight)
    have hpicture : SamePicture page page' := by
      refine samePicture_of_rows ?_ ?_
      · rw [hw, hw', hplain, hplain, hloaded.width_eq]
      · rw [hr, hr', hplain, hplain, hsame]
    have hbytes : jobBytes o.job [page'] = jobBytes o.job [page] :=
      ((jobBytes_same_iff o.job _ _).mpr (.cons hpicture .nil)).symm
    exact ⟨e, e', _, hrun, haccepted, hrun', by rw [haccepted', hbytes]⟩

/-- Two rows of three gray pixels. -/
def grayRaster : CliRaster where
  data := [0, 255, 0, 255, 0, 255]
  width := 3
  height := 2
  lineBytes := 3
  pixels := 0
  description := []

/-- Black, white, black above white, black, white. -/
theorem cmdEncode_render_gray :
    let o := plainOptions 600
    let out := (cmdRender (fun _ _ _ => 0) zeroHeap ⟨true, id, true⟩ o.htParams o.lut grayRaster).2
    out = ascii "P4\n3 2\n" ++ [0xA0, 0x40] ∧ ∃ r', rasterOpen out = some r' ∧ r'.bilevel = true ∧
      ∃ e e' job, cmdEncode (fun _ _ _ => 0) stackEncoder zeroHeap .accepting o grayRaster =
          some (OK, e) ∧ e.sink.accepted = Sink.accepting.accepted ++ job ∧
        cmdEncode (fun _ _ _ => 0) stackEncoder zeroHeap .accepting ⟨o.job, o.htParams, o.lut⟩ r' =
          some (OK, e') ∧ e'.sink.accepted = Sink.accepting.accepted ++ job := by
  intro o out
  have hrows : grayRaster.RowsInside := by
    unfold CliRaster.RowsInside
    decide
  have hrender : cmdRender (fun _ _ _ => 0) zeroHeap ⟨true, id, true⟩ o.htParams o.lut grayRaster =
      (0, out) := Prod.ext (by decide +kernel) rfl
  obtain ⟨r', hopen, hbilevel, -, hencode⟩ := cmdEncode_render (fun _ _ _ => 0) (fun _ _ _ => 0)
    (o := o) hrows (by decide) (by decide) (by decide) (by decide) hrender
  refine ⟨by decide +kernel, r', hopen, hbilevel, ?_⟩
  exact hencode stackEncoder stackEncoder zeroHeap zeroHeap .accepting
    .accepting o.htParams o.lut zeroHeap_succeeds zeroHeap_succeeds (fun _ => rfl) fun _ => rfl

end Airbridge.Cli
