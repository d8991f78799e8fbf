import Airbridge.App.Pipeline
import Airbridge.Cli.Encode

/-!
# What the encode command writes

`cmd_encode` to its end.  When it starts a job and every write succeeds, the
file is the job with one page, and the rows of the page are those of the input:
the rows of a bitmap as they are, the rows of a gray input as ink, halftoned
(`cmdEncode_jobBytes`).
-/

namespace Airbridge.Cli

open Airbridge.Qpdl Airbridge.Halftone Airbridge.Raster Airbridge.App Memory

/-- `cmd_encode` behind the lines: the end of the page and of the job. -/
def encodeFinish (c : EncodeCtx) : Int × Encoder :=
  if c.rc ≠ 0 then (c.rc, c.enc) else orReturn (qpdlEndPage c.enc) qpdlEndJob

/-- `cmd_encode` behind its arguments and the loading of the input; `none` when
the page is not started. -/
def cmdEncode (srgbGray : UInt8 → UInt8 → UInt8 → UInt8) (enc : Encoder) (heap : Heap UInt8)
    (sink : Sink) (o : EncodeOptions) (r : CliRaster) : Option (Int × Encoder) :=
  (encodeStart enc heap sink o r).map fun c => encodeFinish (encodeLines srgbGray c)

/-! ## The rows of a page -/

/-- The ink of output line `y`. -/
def inkRow (srgbGray : UInt8 → UInt8 → UInt8 → UInt8) (lut : ToneLut) (r : CliRaster)
    (doubled : Bool) (y : Nat) : Bytes :=
  let line := r.data.drop (r.row (if doubled then y / 2 else y)).start
  let gray := (List.range r.width.toNat).map (pixelGray srgbGray r.fmt line)
  (if doubled then doubledLine gray else gray).map fun g => lut.entries.getD g.toNat 0

/-- The packed rows of the page that becomes of an input. -/
def pageRows (srgbGray : UInt8 → UInt8 → UInt8 → UInt8) (p : HtParams) (lut : ToneLut)
    (r : CliRaster) (doubled : Bool) : List Bytes :=
  if r.bilevel then
    (List.range (outSize doubled r.height).toNat).map fun y =>
      Buffer.load r.data (r.row y).start r.rowBytes
  else
    halftoneRows (freshHalftoner p (outSize doubled r.width).toNat) 0
      ((List.range (outSize doubled r.height).toNat).map (inkRow srgbGray lut r doubled))

theorem length_pageRows (srgbGray : UInt8 → UInt8 → UInt8 → UInt8) (p : HtParams) (lut : ToneLut)
    (r : CliRaster) (doubled : Bool) :
    (pageRows srgbGray p lut r doubled).length = (outSize doubled r.height).toNat := by
  unfold pageRows
  split_ifs
  · rw [List.length_map, List.length_range]
  · rw [length_halftoneRows, List.length_map, List.length_range]

/-! ## The start -/

/-- A page that is started: the envelope and its header are written. -/
theorem encodeStart_soFar {enc : Encoder} {heap : Heap UInt8} {sink : Sink} {o : EncodeOptions}
    {r : CliRaster} {c : EncodeCtx} (h : encodeStart enc heap sink o r = some c)
    (hsink : sink.Accepts) :
    o.job.refused = false ∧ 0 < c.outWidth.toNat ∧ c.outWidth.toNat ≤ 65280 ∧
      (c.upscale && r.bilevel) = false ∧ c.lut = o.lut ∧
      c.ht = freshHalftoner o.htParams c.outWidth.toNat ∧
      PageSoFar c.enc o.job (sink.accepted ++ envelope o.job) c.outWidth.toNat [] := by
  unfold encodeStart at h
  dsimp only at h
  split_ifs at h with hgray
  simp only [Option.bind_eq_bind, Option.bind_eq_some_iff] at h
  obtain ⟨gray, -, gray2, -, ink, -, bits, -, state, hstate, workspace, hworkspace, h⟩ := h
  split_ifs at h with hfailed
  obtain rfl := Option.some_inj.mp h
  rw [not_or, not_not, not_not] at hfailed
  have hbegun := hfailed.2
  have hcells : (int16Cells state).length =
      2 * ((outSize (upscales o.job r) r.width).toNat + 2) := by
    rw [length_int16Cells, Heap.length_malloc hstate, halftonerStateBytes]
    omega
  have hjob : (qpdlBeginJob enc o.job sink).1 = OK := by
    by_contra hne
    rw [orReturn, if_pos hne] at hbegun
    exact hne hbegun
  have hrefused := refused_of_beginJob hjob
  obtain ⟨e, hbegin, hidle⟩ := beginJob_idle enc o.job sink hrefused hsink
  rw [hbegin, orReturn_ok] at hbegun
  have hwidth : ¬((outSize (upscales o.job r) r.width).toNat = 0 ∨
      (outSize (upscales o.job r) r.width).toNat > 65280) := by
    intro hbad
    unfold qpdlBeginPage at hbegun
    rw [hidle.inJob, hidle.inPage, if_neg (by decide), if_pos hbad] at hbegun
    exact absurd (show ERANGE = 0 from hbegun) (by decide)
  have hroom := (Heap.length_malloc hworkspace).ge
  have hpos : 0 < (outSize (upscales o.job r) r.width).toNat := by omega
  obtain ⟨e', hpage, hsoFar⟩ := beginPage_soFar hidle hpos (by omega) hroom
  refine ⟨hrefused, hpos, ?_, ?_, rfl, ?_, ?_⟩
  · show (outSize (upscales o.job r) r.width).toNat ≤ 65280
    omega
  · exact Bool.eq_false_iff.mpr hgray
  · dsimp only
    rw [halftonerInit_fresh o.htParams hcells]
  · dsimp only
    rw [hbegin, orReturn_ok, hpage]
    exact hsoFar

/-! ## Lines -/

/-- The page behind `base`, with these rows so far. -/
structure Encoding (o : EncodeOptions) (r : CliRaster) (base : Bytes) (width : Nat)
    (rows : List Bytes) (c : EncodeCtx) : Prop where
  rc_eq : c.rc = 0
  input_eq : c.input = r
  upscale_eq : c.upscale = upscales o.job r
  outWidth_eq : c.outWidth.toNat = width
  lut_eq : c.lut = o.lut
  inside : c.Inside
  row_bytes : ∀ row ∈ rows, (width + 7) / 8 ≤ row.length
  soFar : PageSoFar c.enc o.job base width (rows.map (rowBits width))

section
variable {srgbGray : UInt8 → UInt8 → UInt8 → UInt8} {o : EncodeOptions} {r : CliRaster}
  {base : Bytes} {width : Nat} {rows : List Bytes} {c : EncodeCtx}

/-- A row that only the encoder takes. -/
theorem sendLine_encoding (h : Encoding o r base width rows c) (hlt : rows.length < 256 * 128)
    (bits row : Bytes) (hrow : (width + 7) / 8 ≤ row.length)
    (hbits : (width + 7) / 8 ≤ bits.length) (hsame : rowBits width bits = rowBits width row) :
    Encoding o r base width (rows ++ [row]) (c.sendLine bits) ∧ (c.sendLine bits).ht = c.ht := by
  obtain ⟨e, hwrite, hsoFar⟩ := writeLine_soFar h.soFar (by rw [List.length_map]; exact hlt) hbits
  have hsend : c.sendLine bits = { c with enc := e, rc := OK } := by
    unfold EncodeCtx.sendLine
    rw [hwrite]
  rw [hsend]
  refine ⟨⟨rfl, h.input_eq, h.upscale_eq, h.outWidth_eq, h.lut_eq,
    ⟨h.inside.length_gray, h.inside.length_gray2, h.inside.length_ink, h.inside.length_bits,
      h.inside.ht_fits, h.inside.writes⟩, ?_, ?_⟩, rfl⟩
  · intro row' hrow'
    rcases List.mem_append.mp hrow' with hrow' | hrow'
    · exact h.row_bytes row' hrow'
    · rw [List.mem_singleton.mp hrow']
      exact hrow
  · rw [List.map_append, List.map_singleton, ← hsame]
    exact hsoFar

variable (srgbGray) in
/-- The ink of a line in its buffer. -/
theorem inkLine_ink (h : Encoding o r base width rows c)
    (hexact : upscales o.job r = true → r.width.toNat < 2 ^ 31 ∧ width = r.width.toNat * 2)
    (hplain : upscales o.job r = false → width = r.width.toNat) (y : Nat) :
    (c.inkLine srgbGray (c.source y)).ink = inkRow srgbGray o.lut r (upscales o.job r) y := by
  have hgray := rasterLineToGray_eq srgbGray r.fmt (c.source y)
    (h.inside.length_gray.trans (by rw [h.input_eq]))
  have hsource : c.source y = r.data.drop (r.row (if upscales o.job r then y / 2 else y)).start := by
    unfold EncodeCtx.source
    rw [h.input_eq, h.upscale_eq]
  have hlen2 : c.gray2.length = width := h.inside.length_gray2.trans h.outWidth_eq
  have hlenInk : c.ink.length = width := h.inside.length_ink.trans h.outWidth_eq
  generalize hg : (List.range r.width.toNat).map (pixelGray srgbGray r.fmt (c.source y)) = gray at hgray
  have hlen : gray.length = r.width.toNat := by
    rw [← hg, List.length_map, List.length_range]
  unfold EncodeCtx.inkLine inkRow
  dsimp only
  rw [← hsource, hg, h.input_eq, hgray, h.upscale_eq, h.lut_eq, h.outWidth_eq]
  cases hup : upscales o.job r with
  | false =>
    rw [hplain hup] at hlenInk ⊢
    rw [← hlen] at hlenInk ⊢
    exact toneApply_eq o.lut hlenInk
  | true =>
    obtain ⟨hwidth, htwice⟩ := hexact hup
    rw [if_pos rfl, if_pos rfl, if_pos rfl, ← hlen,
      rasterUpscale2xLine_eq (by omega) (by omega)]
    have hwide : width = (doubledLine gray).length := by
      rw [length_doubledLine]
      omega
    rw [hwide] at hlenInk ⊢
    exact toneApply_eq o.lut hlenInk

variable (srgbGray) in
/-- One line of a gray input. -/
theorem encodeLine_gray (h : Encoding o r base width rows c)
    (hexact : upscales o.job r = true → r.width.toNat < 2 ^ 31 ∧ width = r.width.toNat * 2)
    (hplain : upscales o.job r = false → width = r.width.toNat) (hgray : r.bilevel = false)
    (hlt : rows.length < 256 * 128) (y : Nat) :
    let line := halftoneLine c.ht (inkRow srgbGray o.lut r (upscales o.job r) y) y
      (List.replicate ((c.ht.width + 7) / 8) 0)
    Encoding o r base width (rows ++ [line.2]) (encodeLine srgbGray c y) ∧
      (encodeLine srgbGray c y).ht = line.1 := by
  intro line
  have hink := inkLine_ink srgbGray h hexact hplain y
  have hwidth : c.ht.width = width := h.inside.ht_fits.width_eq.trans h.outWidth_eq
  have hbits : c.bits.length = (c.ht.width + 7) / 8 := by
    rw [h.inside.length_bits, hwidth, h.outWidth_eq]
  have hline : halftoneLine c.ht (inkRow srgbGray o.lut r (upscales o.job r) y) y c.bits = line :=
    halftoneLine_bits _ _ _ hbits
  have hlen : line.2.length = (width + 7) / 8 := by
    have hall := (length_halftoneLine c.ht (inkRow srgbGray o.lut r (upscales o.job r) y) y
      (List.replicate ((c.ht.width + 7) / 8) 0)).1
    rw [List.length_replicate] at hall
    rw [hall, hwidth]
  have hinked : (c.inkLine srgbGray (c.source y)).Inside :=
    inkLine_inside h.inside (fun hup => by
      rw [h.upscale_eq] at hup
      rw [h.input_eq, h.outWidth_eq]
      exact hexact hup) (c.source y)
  have hinside := bitsLine_inside hinked y
  have hconverted : Encoding o r base width rows
      ((c.inkLine srgbGray (c.source y)).bitsLine y) :=
    ⟨h.rc_eq, h.input_eq, h.upscale_eq, h.outWidth_eq, h.lut_eq, hinside, h.row_bytes, h.soFar⟩
  have hht : ((c.inkLine srgbGray (c.source y)).bitsLine y).ht = line.1 ∧
      ((c.inkLine srgbGray (c.source y)).bitsLine y).bits = line.2 := by
    unfold EncodeCtx.bitsLine
    dsimp only
    rw [hink]
    exact ⟨congrArg Prod.fst hline, congrArg Prod.snd hline⟩
  have hstep : encodeLine srgbGray c y =
      ((c.inkLine srgbGray (c.source y)).bitsLine y).sendLine line.2 := by
    unfold encodeLine
    rw [if_neg (not_not_intro h.rc_eq), h.input_eq, hgray, if_neg Bool.false_ne_true]
    dsimp only
    rw [hht.2]
  obtain ⟨hsent, hkept⟩ := sendLine_encoding hconverted hlt line.2 line.2 hlen.ge hlen.ge rfl
  rw [hstep]
  exact ⟨hsent, hkept.trans hht.1⟩

/-- The lines of a gray input, from line `y` on. -/
theorem encodeLines_gray (h : Encoding o r base width rows c)
    (hexact : upscales o.job r = true → r.width.toNat < 2 ^ 31 ∧ width = r.width.toNat * 2)
    (hplain : upscales o.job r = false → width = r.width.toNat) (hgray : r.bilevel = false)
    (y n : Nat) (hle : rows.length + n ≤ 256 * 128) :
    Encoding o r base width (rows ++ halftoneRows c.ht y
      ((List.range' y n).map (inkRow srgbGray o.lut r (upscales o.job r))))
      (Run.run (encodeLine srgbGray) c (List.range' y n)) := by
  induction n generalizing rows c y with
  | zero => simpa [halftoneRows] using h
  | succ n ih =>
    obtain ⟨hline, hht⟩ := encodeLine_gray srgbGray h hexact hplain hgray (by omega) y
    have hrest := ih hline (y + 1) (by
      rw [List.length_append, List.length_singleton]
      omega)
    rw [hht, List.append_assoc] at hrest
    exact hrest

/-- A row of a bitmap, with what is behind it in the file. -/
theorem rowBits_source (width : Nat) {y : Nat} (hrow : (r.row y).Inside) (hwidth : width ≤ 8 * r.rowBytes) :
    rowBits width (r.data.drop (r.row y).start) =
        rowBits width (Buffer.load r.data (r.row y).start r.rowBytes) ∧
      r.rowBytes ≤ (r.data.drop (r.row y).start).length ∧
      (Buffer.load r.data (r.row y).start r.rowBytes).length = r.rowBytes := by
  have hend : (r.row y).start + r.rowBytes ≤ r.data.length := hrow
  refine ⟨?_, ?_, Buffer.length_load_of_le hend⟩
  · unfold rowBits
    apply List.map_congr_left
    intro x hx
    have hlt : x < width := List.mem_range.mp hx
    unfold Bits.get Buffer.load
    rw [List.getD_eq_getElem?_getD, List.getD_eq_getElem?_getD,
      List.getElem?_take_of_lt (by omega)]
  · rw [List.length_drop]
    omega

/-- The lines of a bitmap, from line `y` on. -/
theorem encodeLines_bilevel (h : Encoding o r base width rows c) (hbilevel : r.bilevel = true)
    (hup : upscales o.job r = false) (hwidth : width = r.width.toNat) (hrows : r.RowsInside)
    (y n : Nat) (hend : y + n ≤ r.height.toNat) (hle : rows.length + n ≤ 256 * 128) :
    Encoding o r base width (rows ++ (List.range' y n).map fun y =>
        Buffer.load r.data (r.row y).start r.rowBytes)
      (Run.run (encodeLine srgbGray) c (List.range' y n)) := by
  induction n generalizing rows c y with
  | zero => simpa using h
  | succ n ih =>
    have hrowBytes : r.rowBytes = (width + 7) / 8 := by
      unfold CliRaster.rowBytes
      rw [hbilevel, if_pos rfl, hwidth]
    obtain ⟨hbits, hsource, hload⟩ := rowBits_source width (hrows y (by omega)) (by omega)
    have hstep : encodeLine srgbGray c y = c.sendLine (r.data.drop (r.row y).start) := by
      unfold encodeLine EncodeCtx.source
      rw [if_neg (not_not_intro h.rc_eq), h.input_eq, hbilevel, if_pos rfl, h.upscale_eq, hup,
        if_neg Bool.false_ne_true]
    obtain ⟨hsent, -⟩ := sendLine_encoding h (by omega) _
      (Buffer.load r.data (r.row y).start r.rowBytes) (by omega) (by omega) hbits
    have hrest := ih hsent (y + 1) (by omega) (by
      rw [List.length_append, List.length_singleton]
      omega)
    rw [List.append_assoc] at hrest
    rw [List.range'_succ, Run.run_cons, hstep]
    exact hrest

end

/-! ## The whole command -/

/-- A start that leaves a page behind. -/
theorem encodeStart_encoding {enc : Encoder} {heap : Heap UInt8} {sink : Sink} {o : EncodeOptions}
    {r : CliRaster} {c : EncodeCtx} (h : encodeStart enc heap sink o r = some c)
    (hsink : sink.Accepts) :
    Encoding o r (sink.accepted ++ envelope o.job) (outSize (upscales o.job r) r.width).toNat [] c ∧
      c.ht = freshHalftoner o.htParams (outSize (upscales o.job r) r.width).toNat := by
  obtain ⟨hinput, hupscale, hwidth, -, hrc, hinside⟩ := encodeStart_some h
  obtain ⟨-, -, -, -, hlut, hht, hsoFar⟩ := encodeStart_soFar h hsink
  have hout : c.outWidth.toNat = (outSize (upscales o.job r) r.width).toNat := by
    rw [hwidth, hupscale]
  rw [hout] at hht hsoFar
  exact ⟨⟨hrc, hinput, hupscale, hout, hlut, hinside, fun row hrow => absurd hrow List.not_mem_nil,
    hsoFar⟩, hht⟩

/-- The rows of the page behind all lines. -/
theorem encodeLines_encoding (srgbGray : UInt8 → UInt8 → UInt8 → UInt8) {enc : Encoder}
    {heap : Heap UInt8} {sink : Sink} {o : EncodeOptions} {r : CliRaster} {c : EncodeCtx}
    (h : encodeStart enc heap sink o r = some c) (hsink : sink.Accepts) (hrows : r.RowsInside)
    (hwidth : upscales o.job r = true → r.width.toNat < 2 ^ 31)
    (hheight : (outSize (upscales o.job r) r.height).toNat ≤ 256 * 128) :
    Encoding o r (sink.accepted ++ envelope o.job) (outSize (upscales o.job r) r.width).toNat
      (pageRows srgbGray o.htParams o.lut r (upscales o.job r)) (encodeLines srgbGray c) := by
  obtain ⟨hencoding, hht⟩ := encodeStart_encoding h hsink
  obtain ⟨-, hupscale, -, hlines, -, -⟩ := encodeStart_some h
  obtain ⟨-, -, -, hgray, -, -, -⟩ := encodeStart_soFar h hsink
  rw [hupscale] at hgray hlines
  have hexact := outSize_exact.mpr hwidth
  unfold encodeLines pageRows
  rw [hlines, List.range_eq_range']
  cases hbilevel : r.bilevel with
  | true =>
    rw [hbilevel, Bool.and_true] at hgray
    have hplain : outSize (upscales o.job r) r.height = r.height := by
      unfold outSize
      rw [hgray, if_neg Bool.false_ne_true]
    rw [hgray, if_neg Bool.false_ne_true, Nat.mul_one] at hexact
    rw [hplain] at hheight ⊢
    rw [if_pos rfl]
    rw [hgray] at hencoding ⊢
    exact encodeLines_bilevel hencoding hbilevel hgray hexact hrows 0 r.height.toNat (by omega)
      (by simpa using hheight)
  | false =>
    rw [if_neg Bool.false_ne_true, ← hht]
    refine encodeLines_gray hencoding (fun hup => ⟨hwidth hup, ?_⟩) (fun hup => ?_) hbilevel 0 _
      (by simpa using hheight)
    · rw [hexact, if_pos hup]
    · rw [hexact, if_neg (by rw [hup]; exact Bool.false_ne_true), Nat.mul_one]

/-- The page of an encoding, as the whole-page encoder takes it. -/
def Encoding.page {o : EncodeOptions} {r : CliRaster} {base : Bytes} {width : Nat}
    {rows : List Bytes} {c : EncodeCtx} (h : Encoding o r base width rows c) (hpos : 0 < width)
    (hwidth : width ≤ 65280) (hrows : rows.length ≤ 256 * 128) : Page where
  width := width
  width_pos := hpos
  width_le := hwidth
  workspace := List.replicate (qpdlEncoderWorkspaceBytes width) 0
  room := by rw [List.length_replicate]
  rows := rows
  rows_le := hrows
  row_bytes := h.row_bytes

/-- Once the encode command has started a page, and its file takes every write,
it ends without an error behind the job with that page. -/
theorem encodeFinish_jobBytes (srgbGray : UInt8 → UInt8 → UInt8 → UInt8) {enc : Encoder}
    {heap : Heap UInt8} {sink : Sink} {o : EncodeOptions} {r : CliRaster} {c : EncodeCtx}
    (hstart : encodeStart enc heap sink o r = some c) (hsink : ∀ n, sink.answer n = 0)
    (hrows : r.RowsInside) (hwidth : upscales o.job r = true → r.width.toNat < 2 ^ 31)
    (hheight : (outSize (upscales o.job r) r.height).toNat ≤ 256 * 128) :
    ∃ e p, encodeFinish (encodeLines srgbGray c) = (OK, e) ∧
      e.sink.accepted = sink.accepted ++ jobBytes o.job [p] ∧
      p.width = (outSize (upscales o.job r) r.width).toNat ∧
      p.rows = pageRows srgbGray o.htParams o.lut r (upscales o.job r) := by
  have hencoding := encodeLines_encoding srgbGray hstart hsink hrows hwidth hheight
  obtain ⟨-, hpos, hle, -, -, -, -⟩ := encodeStart_soFar hstart hsink
  obtain ⟨-, hupscale, hout, -, -, -⟩ := encodeStart_some hstart
  rw [hout, hupscale] at hpos hle
  have hlen : (pageRows srgbGray o.htParams o.lut r (upscales o.job r)).length =
      (outSize (upscales o.job r) r.height).toNat := length_pageRows _ _ _ _ _
  obtain ⟨e, hend, hidle⟩ := endPage_soFar hencoding.soFar (by
    rw [List.length_map, hlen]
    exact hheight)
  obtain ⟨e', hjob, -, -, hout'⟩ := endJob_sent hidle
  refine ⟨e', hencoding.page hpos hle (hlen.trans_le hheight), ?_, ?_, rfl, rfl⟩
  · unfold encodeFinish
    rw [if_neg (not_not_intro hencoding.rc_eq), hend, orReturn_ok, hjob]
  · rw [hout', jobBytes, List.flatMap_singleton]
    simp only [List.append_assoc]
    rfl

/-- The job is one that `qpdlBeginJob` takes, and the page one that a bitmap or
a gray input can fill. -/
def Encodable (o : EncodeOptions) (r : CliRaster) : Prop :=
  o.job.refused = false ∧ (upscales o.job r && r.bilevel) = false ∧
    0 < (outSize (upscales o.job r) r.width).toNat ∧
    (outSize (upscales o.job r) r.width).toNat ≤ 65280

instance (o : EncodeOptions) (r : CliRaster) : Decidable (Encodable o r) :=
  inferInstanceAs (Decidable (_ ∧ _))

theorem encodable_of_start {enc : Encoder} {heap : Heap UInt8} {sink : Sink} {o : EncodeOptions}
    {r : CliRaster} {c : EncodeCtx} (h : encodeStart enc heap sink o r = some c)
    (hsink : sink.Accepts) : Encodable o r := by
  obtain ⟨hrefused, hpos, hle, hgray, -, -, -⟩ := encodeStart_soFar h hsink
  obtain ⟨-, hupscale, hout, -, -, -⟩ := encodeStart_some h
  rw [hout, hupscale] at hpos hle
  rw [hupscale] at hgray
  exact ⟨hrefused, hgray, hpos, hle⟩

/-- An encodable input becomes the job with one page. -/
theorem cmdEncode_encodable (srgbGray : UInt8 → UInt8 → UInt8 → UInt8) (enc : Encoder)
    {heap : Heap UInt8} (hheap : heap.Succeeds) {sink : Sink} (hsink : ∀ n, sink.answer n = 0)
    {o : EncodeOptions} {r : CliRaster} (h : Encodable o r) (hrows : r.RowsInside)
    (hwidth : upscales o.job r = true → r.width.toNat < 2 ^ 31)
    (hheight : (outSize (upscales o.job r) r.height).toNat ≤ 256 * 128) :
    ∃ e p, cmdEncode srgbGray enc heap sink o r = some (OK, e) ∧
      e.sink.accepted = sink.accepted ++ jobBytes o.job [p] ∧
      p.width = (outSize (upscales o.job r) r.width).toNat ∧
      p.rows = pageRows srgbGray o.htParams o.lut r (upscales o.job r) := by
  obtain ⟨hjob, hgray, hpos, hle⟩ := h
  obtain ⟨c, hstart⟩ := exists_encodeStart hheap hsink hjob hgray hpos hle enc
  obtain ⟨e, p, hfinish, hpage⟩ := encodeFinish_jobBytes srgbGray hstart hsink hrows hwidth hheight
  exact ⟨e, p, by rw [cmdEncode, hstart, Option.map_some, hfinish], hpage⟩

/-- When memory and the file do what they are asked, the encode command ends
without an error for every input that is encodable, and for no other.  The file
then holds the job with one page: the rows of a bitmap as they are in the input,
and the rows of a gray input as ink, halftoned from a fresh halftoner, at 1200
dpi over the doubled input. -/
theorem cmdEncode_jobBytes (srgbGray : UInt8 → UInt8 → UInt8 → UInt8) (enc : Encoder)
    {heap : Heap UInt8} (hheap : heap.Succeeds) {sink : Sink} (hsink : ∀ n, sink.answer n = 0)
    (o : EncodeOptions) {r : CliRaster} (hrows : r.RowsInside)
    (hwidth : upscales o.job r = true → r.width.toNat < 2 ^ 31)
    (hheight : (outSize (upscales o.job r) r.height).toNat ≤ 256 * 128) :
    if Encodable o r then
      ∃ e p, cmdEncode srgbGray enc heap sink o r = some (OK, e) ∧
        e.sink.accepted = sink.accepted ++ jobBytes o.job [p] ∧
        p.width = (outSize (upscales o.job r) r.width).toNat ∧
        p.rows = pageRows srgbGray o.htParams o.lut r (upscales o.job r)
    else cmdEncode srgbGray enc heap sink o r = none := by
  split_ifs with hencodable
  · exact cmdEncode_encodable srgbGray enc hheap hsink hencodable hrows hwidth hheight
  · unfold cmdEncode
    cases hstart : encodeStart enc heap sink o r with
    | none => rfl
    | some c => exact absurd (encodable_of_start hstart hsink) hencodable

/-- A row of 1000 gray pixels at 600 dpi. -/
def grayRow : CliRaster := cupsRaster (rowRaster 1000 8 1000 18) (rowFields 1000 8 1000 18) .sgray8

/-- The row doubled, to two lines of 2000 pixels. -/
theorem cmdEncode_jobBytes_doubled :
    ∃ e p, cmdEncode (fun _ _ _ => 0) stackEncoder zeroHeap .accepting (plainOptions 1200) grayRow =
        some (OK, e) ∧
      e.sink.accepted = Sink.accepting.accepted ++ jobBytes (plainOptions 1200).job [p] ∧
      p.width = 2000 ∧
      p.rows = pageRows (fun _ _ _ => 0) (plainOptions 1200).htParams (plainOptions 1200).lut
        grayRow true := by
  have hrows : grayRow.RowsInside := by
    intro y hy
    obtain rfl : y = 0 := Nat.lt_one_iff.mp hy
    show 1800 + 0 * 1000 + 1000 ≤ (rowRaster 1000 8 1000 18).length
    rw [length_rowRaster]
    decide
  have hencodable : Encodable (plainOptions 1200) grayRow := ⟨by decide, rfl, by decide, by decide⟩
  have hsink : ∀ n, Sink.accepting.answer n = 0 := fun _ => rfl
  have hencoded := cmdEncode_jobBytes (fun _ _ _ => 0) stackEncoder zeroHeap_succeeds hsink
    (plainOptions 1200) hrows (fun _ => by decide) (by decide)
  rw [if_pos hencodable] at hencoded
  exact hencoded

end Airbridge.Cli
