import Airbridge.Qpdl.PageBytes

/-!
# The encoder writes the whole-page encoder's bytes

The line-by-line encoder reuses one workspace for all bands of a page, and
never clears more of it than the rows.  The invariant that makes this
invisible is `Buffered`: the row buffer holds the rows received since the last
flush, packed and padded, and zeros behind them, while nothing is said about
the band and payload slices, which are overwritten before they are read.

`InPage` is the state in a page over any sink, and `MidPage` the one over a
sink that accepts everything, under which each call has one lemma.
-/

namespace Airbridge.Qpdl

/-! ## Writes that are accepted -/

/-- The sink accepts every write. -/
def Sink.Accepts (s : Sink) : Prop := ∀ n, s.answer n = 0

/-- The encoder after an accepted write. -/
def Encoder.sent (e : Encoder) (data : Bytes) : Encoder :=
  { e with
    sink := { e.sink with
      calls := e.sink.calls + 1
      offered := e.sink.offered ++ [data]
      accepted := e.sink.accepted ++ data }
    bytesOut := u64 (e.bytesOut + data.length) }

theorem Encoder.emit_of_answer (e : Encoder) (h : e.sink.answer e.sink.calls = 0) (data : Bytes) :
    e.emit data = (OK, e.sent data) := by
  simp [Encoder.emit, Sink.write, Encoder.sent, h]

@[simp] theorem orReturn_ok (e : Encoder) (next : Encoder → Int × Encoder) :
    orReturn (OK, e) next = next e := by
  simp [orReturn]

theorem orReturn_assoc (r : Int × Encoder) (next next' : Encoder → Int × Encoder) :
    orReturn (orReturn r next) next' = orReturn r fun e => orReturn (next e) next' := by
  by_cases h : r.1 = 0
  · simp [orReturn, h]
  · simp [orReturn, h]

/-- A chain returns 0 exactly when each of its calls does. -/
theorem orReturn_eq_zero {r : Int × Encoder} {next : Encoder → Int × Encoder} :
    (orReturn r next).1 = 0 ↔ r.1 = 0 ∧ (next r.2).1 = 0 := by
  rw [orReturn]
  split_ifs with h
  · simp [h]
  · simp [not_not.mp h]

/-! ## The page invariant -/

/-- The fields `m2022_qpdl_begin_page` sets from the width, which no later
call changes. -/
structure Geometry (e : Encoder) (width : Nat) : Prop where
  pos : 0 < width
  le : width ≤ 65280
  width_eq : e.width = width
  bandWidth_eq : e.bandWidth = UInt16.ofNat ((width + 255) / 256 * 256)
  bytesPerRow_eq : e.bytesPerRow = rowBytes width
  rowBytesUsed_eq : e.rowBytesUsed = (width + 7) / 8
  rows_eq : e.rows = 0
  band_eq : e.band = bandBytes width
  payload_eq : e.payload = bandBytes width + bandBytes width
  payloadCap_eq : e.payloadCap = codec11EncodeBound (bandBytes width)
  room : qpdlEncoderWorkspaceBytes width ≤ e.workspace.length

/-- A workspace of the same length and new counters keep the geometry. -/
theorem Geometry.congr {e e' : Encoder} {width : Nat} (h : Geometry e width)
    (hwidth : e'.width = e.width) (hband : e'.bandWidth = e.bandWidth)
    (hbpr : e'.bytesPerRow = e.bytesPerRow) (hused : e'.rowBytesUsed = e.rowBytesUsed)
    (hslices : (e'.rows, e'.band, e'.payload, e'.payloadCap) =
      (e.rows, e.band, e.payload, e.payloadCap))
    (hlen : e'.workspace.length = e.workspace.length) : Geometry e' width := by
  obtain ⟨h1, h2, h3, h4⟩ : e'.rows = e.rows ∧ e'.band = e.band ∧ e'.payload = e.payload ∧
      e'.payloadCap = e.payloadCap := by
    simpa using hslices
  exact ⟨h.pos, h.le, hwidth.trans h.width_eq, hband.trans h.bandWidth_eq,
    hbpr.trans h.bytesPerRow_eq, hused.trans h.rowBytesUsed_eq, h1.trans h.rows_eq,
    h2.trans h.band_eq, h3.trans h.payload_eq, h4.trans h.payloadCap_eq, by rw [hlen]; exact h.room⟩

/-! ## What the calls of a page leave alone -/

/-- `e'` differs from `e` in what the calls inside a page may change, also
when they fail: the bytes of the workspace, the counters and the sink. -/
structure Kept (e e' : Encoder) : Prop where
  job_eq : e'.job = e.job
  inJob_eq : e'.inJob = e.inJob
  inPage_eq : e'.inPage = e.inPage
  answer_eq : e'.sink.answer = e.sink.answer
  length_workspace : e'.workspace.length = e.workspace.length
  geometry {width : Nat} : Geometry e width → Geometry e' width

theorem Kept.refl (e : Encoder) : Kept e e := ⟨rfl, rfl, rfl, rfl, rfl, id⟩

theorem Kept.trans {e e' e'' : Encoder} (h : Kept e e') (h' : Kept e' e'') : Kept e e'' :=
  ⟨h'.job_eq.trans h.job_eq, h'.inJob_eq.trans h.inJob_eq, h'.inPage_eq.trans h.inPage_eq,
    h'.answer_eq.trans h.answer_eq, h'.length_workspace.trans h.length_workspace,
    fun hg => h'.geometry (h.geometry hg)⟩

theorem orReturn_kept {e : Encoder} {r : Int × Encoder} {next : Encoder → Int × Encoder}
    (h : Kept e r.2) (hnext : ∀ e', Kept e' (next e').2) : Kept e (orReturn r next).2 := by
  unfold orReturn
  split_ifs
  · exact h
  · exact h.trans (hnext r.2)

theorem emit_kept (e : Encoder) (data : Bytes) : Kept e (e.emit data).2 :=
  ⟨rfl, rfl, rfl, rfl, rfl, fun hg => hg.congr rfl rfl rfl rfl rfl rfl⟩

theorem sendBand_kept (e : Encoder) (n : Nat) : Kept e (sendBand e n).2 := by
  unfold sendBand
  refine orReturn_kept (emit_kept e _) fun e1 => orReturn_kept (emit_kept e1 _) fun e2 => ?_
  have hlen := Buffer.length_store e2.workspace e2.rows (List.replicate (e2.bytesPerRow * 128) 0)
  exact ⟨rfl, rfl, rfl, rfl, hlen, fun hg => hg.congr rfl rfl rfl rfl rfl hlen⟩

theorem flushBand_kept (e : Encoder) : Kept e (flushBand e).2 := by
  unfold flushBand
  dsimp only
  split_ifs
  · exact Kept.refl e
  · exact ⟨rfl, rfl, rfl, rfl, rfl, fun hg => hg.congr rfl rfl rfl rfl rfl rfl⟩
  all_goals
    -- the band and the payload are stored, whether or not they are sent
    have hstored (workspace : Bytes) (hlen : workspace.length = e.workspace.length) :
        Kept e { e with workspace := workspace } :=
      ⟨rfl, rfl, rfl, rfl, hlen, fun hg => hg.congr rfl rfl rfl rfl rfl hlen⟩
    have hlen (band payload : Bytes) : (Buffer.store (Buffer.store e.workspace e.band band)
        e.payload payload).length = e.workspace.length := by
      rw [Buffer.length_store, Buffer.length_store]
  · exact hstored _ (hlen _ _)
  · exact (hstored _ (hlen _ _)).trans (sendBand_kept _ _)

theorem bufferLine_kept (e : Encoder) (bits : Bytes) : Kept e (e.bufferLine bits) := by
  have hlen : (e.bufferLine bits).workspace.length = e.workspace.length := by
    unfold Encoder.bufferLine Encoder.putRow
    dsimp only
    split_ifs
    · rw [Buffer.length_store, Buffer.length_store]
    · rw [Buffer.length_store]
  exact ⟨rfl, rfl, rfl, rfl, hlen, fun hg => hg.congr rfl rfl rfl rfl rfl hlen⟩

theorem writeLine_kept (e : Encoder) (bits : Option Bytes) : Kept e (qpdlWriteLine e bits).2 := by
  unfold qpdlWriteLine
  split_ifs
  · exact Kept.refl e
  · cases bits with
    | none => exact Kept.refl e
    | some bits =>
      dsimp only
      split_ifs
      · exact (bufferLine_kept e bits).trans (flushBand_kept _)
      · exact bufferLine_kept e bits

/-- The end of a page keeps the workspace. -/
theorem length_workspace_endPage (e : Encoder) :
    (qpdlEndPage e).2.workspace.length = e.workspace.length := by
  unfold qpdlEndPage
  split_ifs
  · rfl
  · unfold orReturn
    split_ifs
    · exact (flushBand_kept e).length_workspace
    · exact (flushBand_kept e).length_workspace
  · rfl

/-- The row buffer. -/
def Encoder.rowBuffer (e : Encoder) : Bytes :=
  Buffer.load e.workspace e.rows (e.bytesPerRow * 128)

/-- The row buffer holds `pending`, the pixels of the rows since the last
flush, and is white behind them. -/
structure Buffered (e : Encoder) (width : Nat) (pending : List (List Bool)) : Prop extends
    Geometry e width where
  pending_le : pending.length ≤ 128
  pending_width : ∀ row ∈ pending, row.length = width
  rowBuffer_eq : e.rowBuffer = bandRows width pending

/-! ## Storing a row -/

/-- The bytes `m2022_qpdl_write_line` keeps of a row. -/
def maskedRow (width : Nat) (bits : Bytes) : Bytes :=
  if width % 8 ≠ 0 then
    bits.take ((width + 7) / 8 - 1) ++
      [byteAt bits ((width + 7) / 8 - 1) &&& UInt8.ofNat (0xFF <<< (8 - width % 8))]
  else bits.take ((width + 7) / 8)

theorem length_maskedRow {width : Nat} {bits : Bytes} (hbits : (width + 7) / 8 ≤ bits.length) :
    (maskedRow width bits).length = (width + 7) / 8 := by
  rw [maskedRow]
  split_ifs with h
  · rw [List.length_append, List.length_take, List.length_singleton]
    omega
  · rw [List.length_take]
    omega

/-- The pixels of the bytes kept are those inside the width. -/
theorem get_maskedRow {width : Nat} {bits : Bytes} (hbits : (width + 7) / 8 ≤ bits.length)
    (x : Nat) : Bits.get (maskedRow width bits) x = (decide (x < width) && Bits.get bits x) := by
  have htake : (bits.take ((width + 7) / 8 - 1)).length = (width + 7) / 8 - 1 :=
    List.length_take_of_le (by omega)
  rcases Nat.lt_or_ge x (8 * ((width + 7) / 8)) with hx | hx
  · rw [maskedRow, Bits.get, Bits.get]
    split_ifs with hmask
    · rcases Nat.lt_or_ge (x / 8) ((width + 7) / 8 - 1) with hlt | hge
      · have hin : x < width := by omega
        rw [List.getD_append _ _ _ _ (by rw [htake]; exact hlt)]
        simp [hin, List.getD_eq_getElem?_getD, hlt]
      · have heq : x / 8 = (width + 7) / 8 - 1 := by omega
        rw [List.getD_append_right _ _ _ _ (by rw [htake]; exact hge), htake, heq, Nat.sub_self,
          List.getD_cons_zero, Bits.ofByte_mask _ (by omega) (by omega), byteAt]
        congr 2
        rw [eq_iff_iff]
        omega
    · have hin : x < width := by omega
      have hlt : x / 8 < (width + 7) / 8 := by omega
      simp [hin, List.getD_eq_getElem?_getD, hlt]
  · have hout : ¬x < width := by omega
    rw [Bits.get_of_le (by rw [length_maskedRow hbits]; exact hx)]
    simp [hout]

/-- A row of the row buffer: the bytes kept, and zeros. -/
theorem packRow_rowBits {width : Nat} {bits : Bytes} (hbits : (width + 7) / 8 ≤ bits.length) :
    packRow width (rowBits width bits) =
      maskedRow width bits ++ List.replicate (rowBytes width - (width + 7) / 8) 0 := by
  have hle := width_le_rowBytes width
  have hlen := length_maskedRow hbits
  apply Bits.row_ext
  · rw [length_packRow, List.length_append, hlen, List.length_replicate]
    omega
  intro x hx
  rw [length_packRow] at hx
  rw [packRow, Bits.get_pack _ hx, getD_rowBits, ← get_maskedRow hbits]
  rcases Nat.lt_or_ge (x / 8) ((width + 7) / 8) with hlt | hge
  · rw [Bits.get, Bits.get, List.getD_append _ _ _ _ (by omega)]
  · rw [Bits.get_of_le (by omega), Bits.get, List.getD_append_right _ _ _ _ (by omega)]
    simp

/-- The two stores of a row are one. -/
theorem putRow_eq {e : Encoder} {width row : Nat} {bits : Bytes} (h : Geometry e width)
    (hbits : (width + 7) / 8 ≤ bits.length) (hrow : row + (width + 7) / 8 ≤ e.workspace.length) :
    e.putRow row bits = Buffer.store e.workspace row (maskedRow width bits) := by
  have hpos := h.pos
  rw [Encoder.putRow, maskedRow]
  simp only [h.width_eq, h.rowBytesUsed_eq]
  split_ifs with hmask
  · have htake : (bits.take ((width + 7) / 8 - 1)).length = (width + 7) / 8 - 1 :=
      List.length_take_of_le (by omega)
    have hsplit : bits.take ((width + 7) / 8) =
        bits.take ((width + 7) / 8 - 1) ++ [byteAt bits ((width + 7) / 8 - 1)] := by
      rw [byteAt_eq_getElem (by omega), List.take_append_getElem,
        show (width + 7) / 8 - 1 + 1 = (width + 7) / 8 by omega]
    have hlast : row + (width + 7) / 8 - 1 = row + ((width + 7) / 8 - 1) := by omega
    have hbyte : byteAt (Buffer.store e.workspace row (bits.take ((width + 7) / 8)))
        (row + ((width + 7) / 8 - 1)) = byteAt bits ((width + 7) / 8 - 1) := by
      rw [byteAt, byteAt, List.getD_eq_getElem?_getD, List.getD_eq_getElem?_getD,
        Buffer.getElem?_store_add (by rw [List.length_take_of_le hbits]; omega) (by omega),
        List.getElem?_take_of_lt (by omega)]
    have hsnoc := Buffer.store_snoc e.workspace (bits.take ((width + 7) / 8 - 1)) row
      (byteAt bits ((width + 7) / 8 - 1))
      (byteAt bits ((width + 7) / 8 - 1) &&& UInt8.ofNat (0xFF <<< (8 - width % 8)))
    rw [htake] at hsnoc
    rw [hlast, hbyte, hsplit, hsnoc]
  · rfl

/-- The row buffer of a group with one more row. -/
theorem bandRows_append_row (width : Nat) (pending : List (List Bool)) (row : List Bool) :
    bandRows width (pending ++ [row]) =
      pending.flatMap (packRow width) ++ packRow width row ++
        List.replicate ((127 - pending.length) * rowBytes width) 0 := by
  rw [bandRows, List.flatMap_append, List.flatMap_singleton, List.length_append,
    List.length_singleton, Nat.sub_add_eq, Nat.sub_right_comm]

/-- The line of the row buffer behind the pending rows ends inside it. -/
theorem line_end_le (width : Nat) {pending : List (List Bool)} (hlt : pending.length < 128) :
    pending.length * rowBytes width + rowBytes width ≤ rowBytes width * 128 := by
  rw [← Nat.succ_mul, Nat.mul_comm (rowBytes width)]
  exact Nat.mul_le_mul_right _ hlt

/-- A row stored behind the pending ones is the next pending row. -/
theorem rowBuffer_putRow {e : Encoder} {width : Nat} {pending : List (List Bool)} {bits : Bytes}
    (h : Buffered e width pending) (hlt : pending.length < 128)
    (hbits : (width + 7) / 8 ≤ bits.length) :
    Buffer.load (e.putRow (e.rows + pending.length * e.bytesPerRow) bits) e.rows
        (e.bytesPerRow * 128) = bandRows width (pending ++ [rowBits width bits]) := by
  have hroom := h.room
  have hend := line_end_le width hlt
  have hlen := length_maskedRow hbits
  have hused : (width + 7) / 8 ≤ rowBytes width := by
    have := width_le_rowBytes width
    omega
  have hsize : rowBytes width * 128 ≤ e.workspace.length := by
    rw [qpdlEncoderWorkspaceBytes, bandBytes_eq] at hroom
    omega
  have hbuf : Buffer.load e.workspace 0 (rowBytes width * 128) = bandRows width pending := by
    rw [← h.rowBuffer_eq, Encoder.rowBuffer, h.rows_eq, h.bytesPerRow_eq]
  -- the free part of the row buffer: the bytes of this row, its padding, the lines below
  have hfree : (128 - pending.length) * rowBytes width =
      (width + 7) / 8 + (rowBytes width - (width + 7) / 8 +
        (127 - pending.length) * rowBytes width) := by
    rw [show 128 - pending.length = 127 - pending.length + 1 by omega, Nat.succ_mul]
    omega
  rw [h.rows_eq, h.bytesPerRow_eq, Nat.zero_add, putRow_eq h.toGeometry hbits (by omega),
    Buffer.load_store_within (Nat.zero_le _) (by omega), hbuf, Nat.sub_zero, bandRows, hfree,
    List.replicate_add, List.replicate_add, ← List.append_assoc,
    ← length_flatMap_packRow width pending, Buffer.store_append (by rw [hlen, List.length_replicate]),
    bandRows_append_row, packRow_rowBits hbits]
  simp only [List.append_assoc]

/-! ## Flushing a band -/

theorem bandRows_nil (width : Nat) :
    bandRows width [] = List.replicate (rowBytes width * 128) 0 := by
  rw [bandRows, List.flatMap_nil, List.nil_append, List.length_nil, Nat.sub_zero, Nat.mul_comm]

/-- A write leaves the row buffer alone. -/
theorem Buffered.sent {e : Encoder} {width : Nat} {pending : List (List Bool)}
    (h : Buffered e width pending) (data : Bytes) : Buffered (e.sent data) width pending :=
  ⟨h.toGeometry.congr rfl rfl rfl rfl rfl rfl, h.pending_le, h.pending_width, h.rowBuffer_eq⟩

/-- A page opens with a clear row buffer, whatever the workspace held. -/
theorem openPage_buffered (e : Encoder) {width : Nat} (hpos : 0 < width) (hle : width ≤ 65280)
    {workspace : Bytes} (hroom : qpdlEncoderWorkspaceBytes width ≤ workspace.length) :
    Buffered (e.openPage width workspace) width [] := by
  have hbw : (UInt16.ofNat ((width + 255) / 256 * 256)).toNat / 8 = rowBytes width := by
    rw [UInt16.toNat_ofNat', rowBytes]
    omega
  have hbytes := bandBytes_eq width
  have hgeom : Geometry (e.openPage width workspace) width := by
    refine ⟨hpos, hle, rfl, rfl, hbw, rfl, rfl, ?_, ?_, ?_, ?_⟩
    · rw [hbytes, ← hbw]
      rfl
    · rw [hbytes, ← hbw]
      rfl
    · rw [hbytes, ← hbw]
      rfl
    · rw [Encoder.openPage, Buffer.length_store]
      exact hroom
  refine ⟨hgeom, by simp, by simp, ?_⟩
  rw [qpdlEncoderWorkspaceBytes] at hroom
  have hsize : (List.replicate (rowBytes width * 128) (0 : UInt8)).length =
      rowBytes width * 128 := List.length_replicate
  have hload := Buffer.load_store_same workspace 0 (List.replicate (rowBytes width * 128) 0)
    (by rw [hsize]; omega)
  rw [hsize] at hload
  rw [bandRows_nil, Encoder.rowBuffer, hgeom.rows_eq, hgeom.bytesPerRow_eq, Encoder.openPage, hbw]
  exact hload

/-- A white group leaves the row buffer as clear as an empty one. -/
theorem bandRows_white {width : Nat} {group : List (List Bool)} (hle : group.length ≤ 128)
    (hwidth : ∀ row ∈ group, row.length = width) (hw : isWhite group = true) :
    bandRows width group = bandRows width [] := by
  rw [← bandRows_all_zero fun row hrow => (hwidth row hrow).le, List.all_eq_true] at hw
  rw [bandRows_nil, List.eq_replicate_iff]
  exact ⟨length_bandRows hle, fun b hb => by simpa using hw b hb⟩

/-- The encoder behind a flush that skipped a white band. -/
def Encoder.skipped (e : Encoder) : Encoder :=
  { e with bandsBlank := u32 (e.bandsBlank + 1), bandNumber := e.bandNumber + 1 }

/-- The encoder behind a flush whose writes went through. -/
def Encoder.flushed (e : Encoder) : Encoder :=
  { e with
    workspace := Buffer.store e.workspace e.rows (List.replicate (e.bytesPerRow * 128) 0)
    bandsWritten := u32 (e.bandsWritten + 1)
    bandNumber := e.bandNumber + 1 }

/-- The payload of a band in the grammar of the codec. -/
theorem bandPayload_eq (width : Nat) (rows : Bytes) :
    let band := transposed rows (rowBytes width)
    bandPayload width rows = (encodedPayload band (codec11ChooseTable band)).bytes := by
  intro band
  rw [bandPayload]
  change (codec11Encode band _ (codec11EncodeBound band.length)).out = _
  rw [codec11Encode_eq (encodedPayload_spec band (codec11ChooseTable band)).2.2]

/-- The payload the flush encodes, whatever the band and payload slices held. -/
theorem codec11Encode_band (width : Nat) (rows : Bytes) :
    let band := transposed rows (rowBytes width)
    codec11Encode band (codec11ChooseTable band) (codec11EncodeBound (bandBytes width)) =
        ⟨OK, bandPayload width rows⟩ ∧
      (bandPayload width rows).length ≤ codec11EncodeBound (bandBytes width) := by
  intro band
  have hlen : band.length = bandBytes width := by
    rw [bandBytes_eq]
    exact length_transposed _ _
  have hbound := (encodedPayload_spec band (codec11ChooseTable band)).2.2
  rw [← hlen, bandPayload_eq]
  exact ⟨codec11Encode_eq hbound, hbound⟩

/-- The row buffer is white exactly when its rows are. -/
theorem rowBuffer_all_zero {e : Encoder} {width : Nat} {pending : List (List Bool)}
    (h : Buffered e width pending) :
    (Buffer.load e.workspace e.rows (e.bytesPerRow * 128)).all (· == 0) = isWhite pending := by
  rw [← bandRows_all_zero fun row hrow => (h.pending_width row hrow).le, ← h.rowBuffer_eq]
  rfl

theorem flushBand_range {e : Encoder} (hn : 255 < e.bandNumber) : flushBand e = (ERANGE, e) := by
  rw [flushBand]
  simp only [if_pos hn]

/-- A white row buffer is skipped. -/
theorem flushBand_blank {e : Encoder} (hn : e.bandNumber ≤ 255)
    (hw : e.rowBuffer.all (· == 0) = true) : flushBand e = (OK, e.skipped) := by
  unfold Encoder.rowBuffer at hw
  rw [flushBand]
  simp only [hw, if_neg (Nat.not_lt.mpr hn), if_true]
  rfl

theorem flushBand_white {e : Encoder} {width : Nat} {pending : List (List Bool)}
    (h : Buffered e width pending) (hn : e.bandNumber ≤ 255) (hw : isWhite pending = true) :
    flushBand e = (OK, e.skipped) :=
  flushBand_blank hn ((rowBuffer_all_zero h).trans hw)

/-- Otherwise the payload of the row buffer is encoded and stands ready in its
slice; the rows are still in the buffer. -/
theorem flushBand_encoded {e : Encoder} {width : Nat} (h : Geometry e width)
    (hn : e.bandNumber ≤ 255) (hw : e.rowBuffer.all (· == 0) = false) :
    ∃ e1 : Encoder, Geometry e1 width ∧ e1.rowBuffer = e.rowBuffer ∧
      e1 = { e with workspace := e1.workspace } ∧
      Buffer.load e1.workspace e1.payload (bandPayload width e.rowBuffer).length =
        bandPayload width e.rowBuffer ∧
      flushBand e = sendBand e1 (bandPayload width e.rowBuffer).length := by
  have hroom := h.room
  rw [qpdlEncoderWorkspaceBytes] at hroom
  have hbytes := bandBytes_eq width
  obtain ⟨henc, hbound⟩ := codec11Encode_band width e.rowBuffer
  have hload : Buffer.load e.workspace 0 (rowBytes width * 128) = e.rowBuffer := by
    rw [Encoder.rowBuffer, h.rows_eq, h.bytesPerRow_eq]
  have hband : rowsToBand e.rowBuffer (rowBytes width)
      (Buffer.load e.workspace (bandBytes width) (rowBytes width * 128)) =
        transposed e.rowBuffer (rowBytes width) :=
    rowsToBand_eq_transposed (Buffer.length_load_of_le (by omega))
  have hblen : (transposed e.rowBuffer (rowBytes width)).length = bandBytes width := by
    rw [hbytes]
    exact length_transposed _ _
  let e1 : Encoder := { e with
    workspace := Buffer.store (Buffer.store e.workspace (bandBytes width)
      (transposed e.rowBuffer (rowBytes width))) (bandBytes width + bandBytes width)
      (bandPayload width e.rowBuffer) }
  have hgeom : Geometry e1 width := h.congr rfl rfl rfl rfl rfl (by simp [e1])
  have hrows : e1.rowBuffer = e.rowBuffer := by
    rw [Encoder.rowBuffer, hgeom.rows_eq, hgeom.bytesPerRow_eq,
      Buffer.load_store_disjoint (by omega), Buffer.load_store_disjoint (by omega), hload]
  refine ⟨e1, hgeom, hrows, rfl, ?_, ?_⟩
  · rw [hgeom.payload_eq]
    exact Buffer.load_store_same _ _ _ (by rw [Buffer.length_store]; omega)
  · unfold Encoder.rowBuffer at hw
    rw [flushBand]
    simp only [hw, if_neg (Nat.not_lt.mpr hn), Bool.false_eq_true, if_false]
    simp only [h.rows_eq, h.bytesPerRow_eq, h.band_eq, h.payload_eq, h.payloadCap_eq, hload, hband,
      henc, ne_eq, not_true_eq_false, if_false, e1]

theorem flushBand_black {e : Encoder} {width : Nat} {pending : List (List Bool)}
    (h : Buffered e width pending) (hn : e.bandNumber ≤ 255) (hw : isWhite pending = false) :
    ∃ e1 : Encoder, Buffered e1 width pending ∧ e1 = { e with workspace := e1.workspace } ∧
      Buffer.load e1.workspace e1.payload (bandPayload width (bandRows width pending)).length =
        bandPayload width (bandRows width pending) ∧
      flushBand e = sendBand e1 (bandPayload width (bandRows width pending)).length := by
  obtain ⟨e1, hgeom, hrows, he1, hload, hflush⟩ :=
    flushBand_encoded h.toGeometry hn ((rowBuffer_all_zero h).trans hw)
  rw [h.rowBuffer_eq] at hrows hload hflush
  exact ⟨e1, ⟨hgeom, h.pending_le, h.pending_width, hrows⟩, he1, hload, hflush⟩

/-- The record of a band is sent when both of its writes are accepted. -/
theorem sendBand_accepted {e : Encoder} {width : Nat} {payload : Bytes} (h : Geometry e width)
    (hload : Buffer.load e.workspace e.payload payload.length = payload)
    (h0 : e.sink.answer e.sink.calls = 0) (h1 : e.sink.answer (e.sink.calls + 1) = 0) :
    sendBand e payload.length =
      (OK, ((e.sent (writeBandHeader (bandHeader width e.bandNumber payload))).sent
        payload).flushed) := by
  rw [sendBand]
  simp only [h.bandWidth_eq]
  rw [Encoder.emit_of_answer _ h0, orReturn_ok, Encoder.emit_of_answer _ (by exact h1), orReturn_ok]
  change (OK, ((e.sent _).sent (Buffer.load e.workspace e.payload payload.length)).flushed) = _
  rw [hload]
  rfl

/-- The flush of the pending rows goes through: the band number fits its byte,
and the rows are white or the sink accepts the two writes of the record. -/
def FlushOk (e : Encoder) (pending : List (List Bool)) : Prop :=
  e.bandNumber ≤ 255 ∧
    (isWhite pending = true ∨
      e.sink.answer e.sink.calls = 0 ∧ e.sink.answer (e.sink.calls + 1) = 0)

/-- `e'` is `e` with `data` written: what the calls of a page leave alone. -/
structure Wrote (e e' : Encoder) (data : Bytes) : Prop where
  job_eq : e'.job = e.job
  inJob_eq : e'.inJob = e.inJob
  inPage_eq : e'.inPage = e.inPage
  lines_eq : e'.lines = e.lines
  answer_eq : e'.sink.answer = e.sink.answer
  accepted_eq : e'.sink.accepted = e.sink.accepted ++ data

/-- A row buffer that was cleared holds no rows. -/
theorem rowBuffer_flushed {e : Encoder} {width : Nat} (h : Geometry e width) :
    e.flushed.rowBuffer = bandRows width [] := by
  have hroom := h.room
  rw [qpdlEncoderWorkspaceBytes, bandBytes_eq] at hroom
  have hsize : (List.replicate (e.bytesPerRow * 128) (0 : UInt8)).length = e.bytesPerRow * 128 :=
    List.length_replicate
  have hload := Buffer.load_store_same e.workspace e.rows
    (List.replicate (e.bytesPerRow * 128) 0) (by rw [hsize, h.rows_eq, h.bytesPerRow_eq]; omega)
  rw [hsize] at hload
  rw [bandRows_nil, ← h.bytesPerRow_eq]
  exact hload

/-- A flush that goes through writes the record of the pending rows and leaves
the row buffer clear. -/
theorem flushBand_ok {e : Encoder} {width : Nat} {pending : List (List Bool)}
    (h : Buffered e width pending) (hok : FlushOk e pending) :
    ∃ e', flushBand e = (OK, e') ∧ Buffered e' width [] ∧
      Wrote e e' (bandRecord width e.bandNumber pending) ∧ e'.bandNumber = e.bandNumber + 1 := by
  cases hw : isWhite pending with
  | true =>
    refine ⟨e.skipped, flushBand_white h hok.1 hw, ?_, ?_, rfl⟩
    · refine ⟨h.toGeometry.congr rfl rfl rfl rfl rfl rfl, by simp, by simp, ?_⟩
      rw [← bandRows_white h.pending_le h.pending_width hw, ← h.rowBuffer_eq]
      rfl
    · rw [bandRecord, if_pos hw]
      exact ⟨rfl, rfl, rfl, rfl, rfl, (List.append_nil _).symm⟩
  | false =>
    obtain ⟨h0, h1⟩ := hok.2.resolve_left (by rw [hw]; simp)
    obtain ⟨e1, hb, he1, hload, heq⟩ := flushBand_black h hok.1 hw
    have hsend := sendBand_accepted hb.toGeometry hload (by rw [he1]; exact h0)
      (by rw [he1]; exact h1)
    refine ⟨_, heq.trans hsend, ?_, ?_, by rw [he1]; rfl⟩
    · exact ⟨hb.toGeometry.congr rfl rfl rfl rfl rfl (Buffer.length_store _ _ _), by simp, by simp,
        rowBuffer_flushed (hb.toGeometry.congr rfl rfl rfl rfl rfl rfl)⟩
    · rw [he1]
      refine ⟨rfl, rfl, rfl, rfl, rfl, ?_⟩
      rw [bandRecord, hw]
      simp only [Bool.false_eq_true, if_false]
      exact List.append_assoc _ _ _

/-- A flush returns 0 exactly when it goes through. -/
theorem flushBand_ok_iff {e : Encoder} {width : Nat} {pending : List (List Bool)}
    (h : Buffered e width pending) : (flushBand e).1 = 0 ↔ FlushOk e pending := by
  constructor
  · intro hzero
    rcases Nat.lt_or_ge 255 e.bandNumber with hn | hn
    · rw [flushBand_range hn] at hzero
      exact absurd (show ERANGE = 0 from hzero) (by decide)
    · refine ⟨hn, ?_⟩
      by_contra hno
      rw [not_or, Bool.not_eq_true] at hno
      obtain ⟨e1, -, he1, -, heq⟩ := flushBand_black h hn hno.1
      rw [heq, sendBand, orReturn_eq_zero, orReturn_eq_zero] at hzero
      refine hno.2 ⟨?_, ?_⟩
      · have := hzero.1
        rw [he1] at this
        exact this
      · have := hzero.2.1
        rw [he1] at this
        exact this
  · intro hok
    obtain ⟨e', heq, -⟩ := flushBand_ok h hok
    rw [heq]

/-! ## Buffering a line -/

/-- The number of the next line counts on modulo 128, also when the counter
wraps. -/
theorem u32_succ_mod (n : Nat) : u32 (n + 1) % 128 = (n % 128 + 1) % 128 := by
  rw [u32]
  omega

/-- A line goes into the row buffer behind the pending ones. -/
theorem bufferLine_buffered {e : Encoder} {width : Nat} {pending : List (List Bool)} {bits : Bytes}
    (h : Buffered e width pending) (hlines : e.lines % 128 = pending.length)
    (hbits : (width + 7) / 8 ≤ bits.length) :
    Buffered (e.bufferLine bits) width (pending ++ [rowBits width bits]) := by
  have hlt : pending.length < 128 := by omega
  have hput := rowBuffer_putRow h hlt hbits
  have hroom := h.room
  have hend := line_end_le width hlt
  rw [qpdlEncoderWorkspaceBytes, bandBytes_eq] at hroom
  have hused : (width + 7) / 8 ≤ rowBytes width := by
    have := width_le_rowBytes width
    omega
  have hputlen : (e.putRow (e.rows + pending.length * e.bytesPerRow) bits).length =
      e.workspace.length := by
    rw [putRow_eq h.toGeometry hbits (by rw [h.rows_eq, h.bytesPerRow_eq]; omega),
      Buffer.length_store]
  rw [← hlines] at hput hputlen
  refine ⟨h.toGeometry.congr rfl rfl rfl rfl rfl hputlen, by simp; omega, ?_, hput⟩
  intro row hrow
  rcases List.mem_append.mp hrow with hrow | hrow
  · exact h.pending_width row hrow
  · rw [List.mem_singleton.mp hrow, length_rowBits]

/-- A line that does not complete a band is only buffered; the 128th flushes
it. -/
theorem writeLine_eq {e : Encoder} {bits : Bytes} (hinPage : e.inPage = true) :
    qpdlWriteLine e (some bits) =
      if e.lines % 128 = 127 then flushBand (e.bufferLine bits) else (OK, e.bufferLine bits) := by
  have hlines : (e.bufferLine bits).lines % 128 = (e.lines % 128 + 1) % 128 := u32_succ_mod e.lines
  rw [qpdlWriteLine]
  simp only [hinPage, Bool.not_true, Bool.false_eq_true, if_false, hlines]
  split_ifs <;> first | rfl | omega

/-- The end of a page flushes what is pending. -/
theorem endPage_eq {e : Encoder} {pending : List (List Bool)} (hinPage : e.inPage = true)
    (hlines : e.lines % 128 = pending.length) :
    qpdlEndPage e = if pending = [] then closePage e else orReturn (flushBand e) closePage := by
  rw [qpdlEndPage, hlines]
  simp only [hinPage, Bool.not_true, Bool.false_eq_true, if_false, ne_eq, List.length_eq_zero_iff,
    ite_not]

/-! ## One step each -/

/-- Between two pages: `out` is on the sink. -/
structure Idle (e : Encoder) (job : QpdlJob) (out : Bytes) : Prop where
  job_eq : e.job = job
  inJob : e.inJob = true
  inPage : e.inPage = false
  accepts : e.sink.Accepts
  accepted : e.sink.accepted = out

/-- An encoder in a page over any sink: `out` was accepted, and `pending` are
the rows of the band `n` being filled. -/
structure InPage (e : Encoder) (copies : UInt16) (out : Bytes) (width n : Nat)
    (pending : List (List Bool)) : Prop extends Buffered e width pending where
  inPage : e.inPage = true
  copies_eq : e.job.copies = copies
  accepted : e.sink.accepted = out
  lines_eq : e.lines % 128 = pending.length
  bandNumber_eq : e.bandNumber = n

/-- A line is buffered.  The 128th of a band flushes it, and its record is in
the stream when the flush goes through. -/
theorem writeLine_inPage {e : Encoder} {copies : UInt16} {out : Bytes} {width n : Nat}
    {pending : List (List Bool)} (h : InPage e copies out width n pending) {bits : Bytes}
    (hbits : (width + 7) / 8 ≤ bits.length)
    (hok : e.lines % 128 = 127 → FlushOk (e.bufferLine bits) (pending ++ [rowBits width bits])) :
    ∃ e', qpdlWriteLine e (some bits) = (OK, e') ∧
      if pending.length + 1 < 128 then
        InPage e' copies out width n (pending ++ [rowBits width bits])
      else
        n ≤ 255 ∧ InPage e' copies (out ++ bandRecord width n (pending ++ [rowBits width bits]))
          width (n + 1) [] := by
  have hbuf := bufferLine_buffered h.toBuffered h.lines_eq hbits
  have hmod := u32_succ_mod e.lines
  have hlines : (e.bufferLine bits).lines = u32 (e.lines + 1) := rfl
  have hlt := h.lines_eq
  rw [writeLine_eq h.inPage]
  split_ifs with hfull hmore hmore
  · omega
  · obtain ⟨e', hflush, hb, hw, hnum⟩ := flushBand_ok hbuf (hok hfull)
    have hrange : (e.bufferLine bits).bandNumber ≤ 255 := (hok hfull).1
    refine ⟨e', hflush, by rw [← h.bandNumber_eq]; exact hrange, ?_⟩
    exact {
      toBuffered := hb
      inPage := hw.inPage_eq.trans h.inPage
      copies_eq := by
        rw [hw.job_eq]
        exact h.copies_eq
      accepted := by
        rw [hw.accepted_eq, ← h.accepted, ← h.bandNumber_eq]
        rfl
      lines_eq := by
        rw [hw.lines_eq, hlines, hmod, hfull]
        rfl
      bandNumber_eq := by
        rw [hnum, ← h.bandNumber_eq]
        rfl }
  · refine ⟨_, rfl, ⟨hbuf, h.inPage, h.copies_eq, h.accepted, ?_, h.bandNumber_eq⟩⟩
    rw [hlines, hmod, List.length_append, List.length_singleton]
    omega
  · omega

/-- In a page of `width` pixels: `out` is on the sink, the band being filled
has the number `n` and holds the rows `pending`. -/
structure MidPage (e : Encoder) (job : QpdlJob) (out : Bytes) (width n : Nat)
    (pending : List (List Bool)) : Prop extends Buffered e width pending where
  job_eq : e.job = job
  inJob : e.inJob = true
  inPage : e.inPage = true
  accepts : e.sink.Accepts
  accepted : e.sink.accepted = out
  lines_eq : e.lines % 128 = pending.length
  bandNumber_eq : e.bandNumber = n

theorem beginPage_midPage {e : Encoder} {job : QpdlJob} {out : Bytes} (h : Idle e job out)
    {width : Nat} (hpos : 0 < width) (hle : width ≤ 65280) {workspace : Bytes}
    (hroom : qpdlEncoderWorkspaceBytes width ≤ workspace.length) :
    ∃ e', qpdlBeginPage e width (some workspace) = (OK, e') ∧
      MidPage e' job (out ++ writePageHeader job.pageHeader) width 0 [] := by
  have hopen := openPage_buffered e hpos hle hroom
  rw [qpdlBeginPage]
  simp only [h.inJob, h.inPage, Bool.not_true, Bool.or_self, Bool.false_eq_true, if_false,
    if_neg (show ¬(width = 0 ∨ width > 65280) by omega), if_neg (Nat.not_lt.mpr hroom)]
  refine ⟨_, Encoder.emit_of_answer (e.openPage width workspace) (h.accepts _) _, ?_⟩
  exact {
    toBuffered := hopen.sent _
    job_eq := h.job_eq
    inJob := h.inJob
    inPage := rfl
    accepts := h.accepts
    accepted := by
      rw [← h.accepted, ← h.job_eq]
      rfl
    lines_eq := rfl
    bandNumber_eq := rfl }

theorem MidPage.flushOk {e : Encoder} {job : QpdlJob} {out : Bytes} {width n : Nat}
    {pending : List (List Bool)} (h : MidPage e job out width n pending) (hn : n ≤ 255)
    (rows : List (List Bool)) : FlushOk e rows :=
  ⟨by rw [h.bandNumber_eq]; exact hn, .inr ⟨h.accepts _, h.accepts _⟩⟩

theorem MidPage.toInPage {e : Encoder} {job : QpdlJob} {out : Bytes} {width n : Nat}
    {pending : List (List Bool)} (h : MidPage e job out width n pending) :
    InPage e job.copies out width n pending :=
  ⟨h.toBuffered, h.inPage, by rw [h.job_eq], h.accepted, h.lines_eq, h.bandNumber_eq⟩

/-- A line is buffered, and the 128th of a band flushes it. -/
theorem writeLine_midPage {e : Encoder} {job : QpdlJob} {out : Bytes} {width n : Nat}
    {pending : List (List Bool)} (h : MidPage e job out width n pending) (hn : n ≤ 255)
    {bits : Bytes} (hbits : (width + 7) / 8 ≤ bits.length) :
    ∃ e', qpdlWriteLine e (some bits) = (OK, e') ∧
      if pending.length + 1 < 128 then
        MidPage e' job out width n (pending ++ [rowBits width bits])
      else
        MidPage e' job (out ++ bandRecord width n (pending ++ [rowBits width bits])) width (n + 1)
          [] := by
  obtain ⟨e', heq, hstep⟩ := writeLine_inPage h.toInPage hbits fun _ => h.flushOk hn _
  have hkept := writeLine_kept e (some bits)
  rw [heq] at hkept
  have hmid {out : Bytes} {n : Nat} {rows : List (List Bool)}
      (hin : InPage e' job.copies out width n rows) : MidPage e' job out width n rows := {
    toBuffered := hin.toBuffered
    job_eq := hkept.job_eq.trans h.job_eq
    inJob := hkept.inJob_eq.trans h.inJob
    inPage := hin.inPage
    accepts := by
      rw [Sink.Accepts, hkept.answer_eq]
      exact h.accepts
    accepted := hin.accepted
    lines_eq := hin.lines_eq
    bandNumber_eq := hin.bandNumber_eq }
  refine ⟨e', heq, ?_⟩
  split_ifs at hstep ⊢
  · exact hmid hstep
  · exact hmid hstep.2

theorem closePage_idle {e : Encoder} {job : QpdlJob} {out : Bytes} (hjob : e.job = job)
    (hinJob : e.inJob = true) (haccepts : e.sink.Accepts) (hout : e.sink.accepted = out) :
    ∃ e', closePage e = (OK, e') ∧ Idle e' job (out ++ writeEndPage job.copies) := by
  refine ⟨_, Encoder.emit_of_answer e.pageClosed (haccepts _) _, hjob, hinJob, rfl, haccepts, ?_⟩
  rw [← hout, ← hjob]
  rfl

/-- The end of a page writes what is left of the last band and the record. -/
theorem endPage_idle {e : Encoder} {job : QpdlJob} {out : Bytes} {width n : Nat}
    {pending : List (List Bool)} (h : MidPage e job out width n pending)
    (hn : pending ≠ [] → n ≤ 255) :
    ∃ e', qpdlEndPage e = (OK, e') ∧
      Idle e' job (out ++ bandRecords width n pending ++ writeEndPage job.copies) := by
  rw [endPage_eq h.inPage h.lines_eq]
  by_cases hnil : pending = []
  · rw [if_pos hnil, hnil, bandRecords_nil, List.append_nil]
    exact closePage_idle h.job_eq h.inJob h.accepts h.accepted
  · obtain ⟨e1, hflush, -, hw, -⟩ := flushBand_ok h.toBuffered (h.flushOk (hn hnil) _)
    rw [if_neg hnil, hflush, orReturn_ok, bandRecords_last hnil h.pending_le]
    refine closePage_idle (hw.job_eq.trans h.job_eq) (hw.inJob_eq.trans h.inJob) ?_ ?_
    · rw [Sink.Accepts, hw.answer_eq]
      exact h.accepts
    · rw [hw.accepted_eq, h.accepted, h.bandNumber_eq]

end Airbridge.Qpdl
