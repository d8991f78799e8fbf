import Airbridge.Cli.Decode
import Airbridge.Qpdl.EnvelopeRead

/-!
# The buffers of the decode command

The buffers are sized for the band that first had the current bytes per row,
and every later band with as many bytes per row uses them with its own height.
So each access lies inside its buffer exactly as long as no band is taller
than the one the buffers were sized for, and, where rows are placed or a page
is written, that one has at least 128 lines.
-/

namespace Airbridge.Cli

open Airbridge.Qpdl Memory

/-! ## The condition -/

def rowBytesOf (h : BandHeader) : Nat := h.width.toNat / 8

/-- The bytes of a decoded band. -/
def bandSize (h : BandHeader) : Nat := rowBytesOf h * h.height.toNat

/-- The header the buffers are sized by, behind an event: the last 0x11 band
whose bytes per row differ from those of the 0x11 band before it. -/
def sizedBy (o : Option BandHeader) : Event → Option BandHeader
  | .band _ h _ =>
    if h.compression = COMPRESSION_0X11 ∧ o.map rowBytesOf ≠ some (rowBytesOf h) then some h else o
  | _ => o

/-- The payload decodes, without error, to all the bytes of its band. -/
def DecodesFully (h : BandHeader) (payload : Bytes) : Prop :=
  (codec11Decode payload (bandSize h)).rc = OK ∧
    (codec11Decode payload (bandSize h)).out.length = bandSize h

/-- A band `h` fits buffers sized by `o`. -/
def FitsBand (pbm : Bool) (o h : BandHeader) (payload : Bytes) : Prop :=
  rowBytesOf h = 0 ∨
    h.height.toNat ≤ o.height.toNat ∧
      (pbm = true → DecodesFully h payload → 128 ≤ o.height.toNat)

/-- The context, and the header its buffers are sized by. -/
abbrev SizedCtx := DecodeCtx × Option BandHeader

def sizedStep (s : SizedCtx) (ev : Event) : SizedCtx := (decodeStep s.1 ev, sizedBy s.2 ev)

/-- A band must fit the buffers it is decoded into, and a page that is written
to a file must have been sized by a band of at least 128 lines. -/
def EventFits (s : SizedCtx) : Event → Prop
  | .band offset h payload =>
    h.compression = COMPRESSION_0X11 →
      ∀ o ∈ sizedBy s.2 (.band offset h payload), FitsBand s.1.pbmPrefix.isSome o h payload
  | .endPage _ _ =>
    s.1.pbmPrefix.isSome = true → 0 ≤ s.1.maxBand → s.1.canOpen s.1.opened = true →
      ∀ o ∈ s.2, rowBytesOf o = 0 ∨ 128 ≤ o.height.toNat
  | _ => True

/-! ## Accesses -/

/-- Every access so far lies inside its buffer. -/
def DecodeCtx.Inside (d : DecodeCtx) : Prop := ∀ a ∈ d.accesses, a.Inside

theorem touch_inside (d : DecodeCtx) (accesses : List Access) :
    (d.touch accesses).Inside ↔ d.Inside ∧ ∀ a ∈ accesses, a.Inside := by
  simp only [DecodeCtx.Inside, DecodeCtx.touch, List.mem_append, or_imp, forall_and]

/-- The conversion of a band touches all of its 128 lines on both sides. -/
theorem bandToRowsAccesses_inside (bpr start bandSize pageSize : Nat) :
    (∀ a ∈ bandToRowsAccesses bpr start bandSize pageSize, a.Inside) ↔
      bpr = 0 ∨ bpr * 128 ≤ bandSize ∧ start + bpr * 128 ≤ pageSize := by
  have hmem (a : Access) : a ∈ bandToRowsAccesses bpr start bandSize pageSize ↔
      ∃ cell ∈ bandCells bpr, a = ⟨columnIndex cell, 1, bandSize⟩ ∨
        a = ⟨start + rowIndex bpr cell, 1, pageSize⟩ := by
    simp [bandToRowsAccesses]
  constructor
  · intro h
    rcases Nat.eq_zero_or_pos bpr with h0 | h0
    · exact .inl h0
    -- the last cell of the loops is the last byte on both sides
    · have hcell : (bpr - 1, 127) ∈ bandCells bpr :=
        mem_bandCells.mpr ⟨Nat.sub_lt h0 Nat.one_pos, Nat.lt_succ_self 127⟩
      have hread := h _ ((hmem _).mpr ⟨_, hcell, .inl rfl⟩)
      have hwrite := h _ ((hmem _).mpr ⟨_, hcell, .inr rfl⟩)
      simp only [Access.Inside, columnIndex, rowIndex] at hread hwrite
      exact .inr ⟨by omega, by omega⟩
  · intro h a ha
    obtain ⟨cell, hcell, ha⟩ := (hmem a).mp ha
    have hpos : bpr ≠ 0 := fun h0 => by
      have := (mem_bandCells.mp hcell).1
      omega
    obtain ⟨hband, hpage⟩ := h.resolve_left hpos
    have hcol := columnIndex_lt hcell
    have hrow := rowIndex_lt hcell
    rcases ha with rfl | rfl <;> simp only [Access.Inside] <;> omega

/-! ## The sizes of the buffers -/

/-- The buffers have the sizes of the header they are sized by. -/
structure Sized (s : SizedCtx) : Prop where
  succeeds : s.1.heap.Succeeds
  maxBand_le : s.1.maxBand ≤ 255
  bytesPerRow_eq : ∀ o ∈ s.2, s.1.bytesPerRow = rowBytesOf o
  length_bandBuf : s.1.bandBuf.map List.length = s.2.map bandSize
  length_pageRows : s.1.pageRows.map List.length =
    if s.1.pbmPrefix.isSome then s.2.map (256 * bandSize ·) else none

theorem allocate_sized {d : DecodeCtx} (hs : d.heap.Succeeds) (hmax : d.maxBand ≤ 255)
    (h : BandHeader) :
    (allocate d (rowBytesOf h) (bandSize h)).rowsBuf ≠ none ∧
      Sized (allocate d (rowBytesOf h) (bandSize h), some h) := by
  obtain ⟨band, hband, hbandlen⟩ := Heap.malloc_succeeds hs (bandSize h)
  have hs1 : (d.heap.malloc (bandSize h)).2.Succeeds := hs
  obtain ⟨rows, hrows, -⟩ := Heap.malloc_succeeds hs1 (bandSize h)
  have hs2 : ((d.heap.malloc (bandSize h)).2.malloc (bandSize h)).2.Succeeds := hs
  have hpage := Heap.calloc_succeeds hs2 0 (256 * bandSize h)
  refine ⟨?_, ?_, hmax, ?_, ?_, ?_⟩
  · rw [allocate, hrows]
    exact Option.some_ne_none rows
  · rw [allocate]
    dsimp only
    split_ifs <;> exact hs
  · rintro o ⟨rfl⟩
    rfl
  · rw [allocate, hband]
    simp [hbandlen]
  · rw [allocate]
    dsimp only
    split_ifs
    · rw [hpage]
      simp
    · rfl

/-- A 0x11 band is decoded into buffers sized by the current header, which has
the band's bytes per row. -/
theorem onBand_sized {s : SizedCtx} (hs : Sized s) (offset : Nat) {h : BandHeader}
    (hcomp : h.compression = COMPRESSION_0X11) (payload : Bytes) :
    ∃ d o, sizedBy s.2 (.band offset h payload) = some o ∧ rowBytesOf o = rowBytesOf h ∧
      Sized (d, some o) ∧ d.accesses = s.1.accesses ∧ d.pbmPrefix = s.1.pbmPrefix ∧
      onBand s.1 h payload = decodeBand d h payload (rowBytesOf h) (bandSize h) := by
  let d1 := { s.1 with bandWidth := if s.1.bandWidth = 0 then h.width else s.1.bandWidth }
  have hsame : (d1.bandBuf = none ∨ d1.bytesPerRow ≠ rowBytesOf h) ↔
      s.2.map rowBytesOf ≠ some (rowBytesOf h) := by
    have hlen := hs.length_bandBuf
    have hrow := hs.bytesPerRow_eq
    cases ho : s.2 with
    | none =>
      rw [ho, Option.map_none, Option.map_eq_none_iff] at hlen
      simp [d1, hlen]
    | some o =>
      rw [ho, Option.map_some] at hlen
      obtain ⟨band, hband, -⟩ := Option.map_eq_some_iff.mp hlen
      simp [d1, hband, hrow o ho]
  have hexpect : onBand s.1 h payload =
      if d1.bandBuf = none ∨ d1.bytesPerRow ≠ rowBytesOf h then
        let d := allocate d1 (rowBytesOf h) (bandSize h)
        if d.bandBuf = none ∨ d.rowsBuf = none then { d with errors := d.errors + 1 }
        else decodeBand d h payload (rowBytesOf h) (bandSize h)
      else decodeBand d1 h payload (rowBytesOf h) (bandSize h) := by
    rw [onBand]
    exact if_neg (not_not.mpr hcomp)
  rw [hexpect, sizedBy]
  by_cases hnew : s.2.map rowBytesOf ≠ some (rowBytesOf h)
  · obtain ⟨hrows, hsized⟩ := allocate_sized (d := d1) hs.succeeds hs.maxBand_le h
    obtain ⟨band, hband, -⟩ := Option.map_eq_some_iff.mp hsized.length_bandBuf
    refine ⟨_, h, if_pos ⟨hcomp, hnew⟩, rfl, hsized, rfl, rfl, ?_⟩
    rw [if_pos (hsame.mpr hnew)]
    dsimp only at hband ⊢
    rw [if_neg (by rw [hband]; simp [hrows])]
  · have hnew' := not_not.mp hnew
    obtain ⟨o, ho, hrow⟩ := Option.map_eq_some_iff.mp hnew'
    refine ⟨d1, o, by rw [if_neg fun hc => hnew hc.2, ho], hrow, ?_, rfl, rfl, ?_⟩
    · rw [← ho]
      exact ⟨hs.succeeds, hs.maxBand_le, hs.bytesPerRow_eq, hs.length_bandBuf, hs.length_pageRows⟩
    · rw [if_neg (mt hsame.mp hnew)]

/-- The context after the decoder has run, before the result is looked at. -/
def decoded (d : DecodeCtx) (payload : Bytes) (expect : Nat) : DecodeCtx :=
  let band := Buffer.store (d.bandBuf.getD []) 0 (codec11Decode payload expect).out
  { d.touch [⟨0, expect, band.length⟩] with bandBuf := some band }

/-- What becomes of a decoded band. -/
theorem decodeBand_cases (d : DecodeCtx) (h : BandHeader) (payload : Bytes) :
    let d1 := decoded d payload (bandSize h)
    ¬DecodesFully h payload ∧
        decodeBand d h payload (rowBytesOf h) (bandSize h) = { d1 with errors := d.errors + 1 } ∨
      DecodesFully h payload ∧ d.pageRows = none ∧
        decodeBand d h payload (rowBytesOf h) (bandSize h) = d1 ∨
      DecodesFully h payload ∧ ∃ page band, d.pageRows = some page ∧ d1.bandBuf = some band ∧
        decodeBand d h payload (rowBytesOf h) (bandSize h) =
          placeBand d1 h.number (rowBytesOf h) (bandSize h) band page := by
  rw [decodeBand]
  dsimp only
  split_ifs with hbad
  · exact .inl ⟨fun hf => hbad.elim (· hf.1) (· hf.2), rfl⟩
  · rw [not_or, not_not, not_not] at hbad
    cases hpage : d.pageRows with
    | none => exact .inr (.inl ⟨hbad, rfl, by simp [DecodeCtx.touch, hpage, decoded]⟩)
    | some page =>
      exact .inr (.inr ⟨hbad, page, _, rfl, rfl, by simp [DecodeCtx.touch, hpage, decoded]⟩)

theorem decoded_sized {d : DecodeCtx} {o : BandHeader} (hs : Sized (d, some o)) (payload : Bytes)
    (expect : Nat) : Sized (decoded d payload expect, some o) := by
  obtain ⟨band, hband, hlen⟩ := Option.map_eq_some_iff.mp hs.length_bandBuf
  refine ⟨hs.succeeds, hs.maxBand_le, hs.bytesPerRow_eq, ?_, hs.length_pageRows⟩
  dsimp only at hband
  simp [decoded, hband, hlen]

theorem placeBand_sized {d : DecodeCtx} {o : BandHeader} (hs : Sized (d, some o)) (number : UInt8)
    (bpr expect : Nat) (band : Bytes) {page : Bytes} (hpage : d.pageRows = some page) :
    Sized (placeBand d number bpr expect band page, some o) := by
  refine ⟨hs.succeeds, ?_, hs.bytesPerRow_eq, hs.length_bandBuf, ?_⟩
  · have hnumber := number.toNat_lt
    have hmax := hs.maxBand_le
    dsimp only at hmax
    simp only [placeBand, DecodeCtx.touch]
    split_ifs <;> omega
  · have hplaced : (page.take (number.toNat * expect) ++
        bandToRows band bpr (page.drop (number.toNat * expect))).length = page.length := by
      rw [List.length_append, length_bandToRows, ← List.length_append, List.take_append_drop]
    have hlen := hs.length_pageRows
    rw [hpage, Option.map_some, ← hplaced] at hlen
    exact hlen

theorem decodeBand_sized {d : DecodeCtx} {o : BandHeader} (hs : Sized (d, some o)) (h : BandHeader)
    (payload : Bytes) :
    Sized (decodeBand d h payload (rowBytesOf h) (bandSize h), some o) := by
  have hd := decoded_sized hs payload (bandSize h)
  rcases decodeBand_cases d h payload with ⟨-, heq⟩ | ⟨-, -, heq⟩ | ⟨-, page, band, hpage, -, heq⟩
  · rw [heq]
    exact ⟨hd.succeeds, hd.maxBand_le, hd.bytesPerRow_eq, hd.length_bandBuf, hd.length_pageRows⟩
  · rw [heq]
    exact hd
  · rw [heq]
    exact placeBand_sized hd h.number _ _ band hpage

/-- Lines fit a buffer sized by `o` when they are empty or few enough. -/
theorem rows_le_bandSize {o h : BandHeader} (hrow : rowBytesOf o = rowBytesOf h) (n : Nat) :
    rowBytesOf h * n ≤ bandSize o ↔ rowBytesOf h = 0 ∨ n ≤ o.height.toNat := by
  rw [bandSize, hrow]
  rcases Nat.eq_zero_or_pos (rowBytesOf h) with h0 | h0
  · simp [h0]
  · rw [Nat.mul_le_mul_left_iff h0]
    exact ⟨.inr, fun hn => hn.resolve_left (Nat.ne_of_gt h0)⟩

theorem decoded_inside {d : DecodeCtx} {o h : BandHeader} (hs : Sized (d, some o))
    (hrow : rowBytesOf o = rowBytesOf h) (payload : Bytes) :
    (decoded d payload (bandSize h)).Inside ↔
      d.Inside ∧ (rowBytesOf h = 0 ∨ h.height.toNat ≤ o.height.toNat) := by
  obtain ⟨band, hband, hlen⟩ := Option.map_eq_some_iff.mp hs.length_bandBuf
  dsimp only at hband
  have hinside : (decoded d payload (bandSize h)).Inside ↔
      (d.touch [⟨0, bandSize h, (Buffer.store (d.bandBuf.getD []) 0
        (codec11Decode payload (bandSize h)).out).length⟩]).Inside := Iff.rfl
  rw [hinside, touch_inside, Buffer.length_store, hband, Option.getD_some, hlen,
    ← rows_le_bandSize hrow]
  simp [Access.Inside, bandSize]

/-- The accesses of a decoded band lie inside its buffers if and only if the
band fits them. -/
theorem decodeBand_inside {d : DecodeCtx} {o h : BandHeader} (hs : Sized (d, some o))
    (hrow : rowBytesOf o = rowBytesOf h) (payload : Bytes) :
    (decodeBand d h payload (rowBytesOf h) (bandSize h)).Inside ↔
      d.Inside ∧ FitsBand d.pbmPrefix.isSome o h payload := by
  have hdecoded := decoded_inside hs hrow payload
  have hpages := hs.length_pageRows
  rw [FitsBand]
  rcases decodeBand_cases d h payload with ⟨hbad, heq⟩ | ⟨-, hnone, heq⟩ |
    ⟨hfull, page, band, hpage, hband, heq⟩
  · rw [heq]
    refine hdecoded.trans (and_congr_right fun _ => ?_)
    simp [hbad]
  · rw [heq, hdecoded]
    dsimp only at hpages
    rw [hnone, Option.map_none] at hpages
    have hpbm : d.pbmPrefix.isSome = false := by
      by_contra hsome
      rw [Bool.not_eq_false] at hsome
      rw [if_pos hsome] at hpages
      simp at hpages
    simp [hpbm]
  · dsimp only at hpages
    rw [hpage, Option.map_some] at hpages
    have hpbm : d.pbmPrefix.isSome = true := by
      by_contra hsome
      rw [if_neg hsome] at hpages
      simp at hpages
    rw [if_pos hpbm, Option.map_some, Option.some_inj] at hpages
    have hbandlen := (decoded_sized hs payload (bandSize h)).length_bandBuf
    dsimp only at hbandlen
    rw [hband, Option.map_some, Option.map_some, Option.some_inj] at hbandlen
    have hplace : (placeBand (decoded d payload (bandSize h)) h.number (rowBytesOf h) (bandSize h)
        band page).Inside ↔ ((decoded d payload (bandSize h)).touch (bandToRowsAccesses
          (rowBytesOf h) (h.number.toNat * bandSize h) band.length page.length)).Inside := Iff.rfl
    rw [heq, hplace, touch_inside, hdecoded, bandToRowsAccesses_inside, hbandlen, hpages, and_assoc]
    refine and_congr_right fun _ => ?_
    have hrows := rows_le_bandSize hrow 128
    have hheight := rows_le_bandSize hrow h.height.toNat
    constructor
    · rintro ⟨h0 | hle, h0' | ⟨h128, -⟩⟩
      · exact .inl h0
      · exact .inl h0
      · exact .inl h0'
      · rcases hrows.mp h128 with h0 | h128
        · exact .inl h0
        · exact .inr ⟨hle, fun _ _ => h128⟩
    · rintro (h0 | ⟨hle, h128⟩)
      · exact ⟨.inl h0, .inl h0⟩
      · have hread := hrows.mpr (.inr (h128 hpbm hfull))
        have hsize : bandSize h ≤ bandSize o := hheight.mpr (.inr hle)
        have hnumber := h.number.toNat_lt
        have hstart : h.number.toNat * bandSize h ≤ 255 * bandSize o :=
          Nat.mul_le_mul (by omega) hsize
        exact ⟨.inr hle, .inr ⟨hread, by omega⟩⟩

/-! ## The end of a page -/

theorem writePbm_sized {s : SizedCtx} (hs : Sized s) : Sized (writePbm s.1, s.2) := by
  rw [writePbm]
  split
  · exact hs
  · rename_i page hpage
    have hlen := hs.length_pageRows
    split_ifs
    · exact hs
    · refine ⟨hs.succeeds, hs.maxBand_le, hs.bytesPerRow_eq, hs.length_bandBuf, ?_⟩
      have hclear := Buffer.length_store page 0 (List.replicate (256 * 128 * s.1.bytesPerRow) 0)
      rw [hpage, Option.map_some, ← hclear] at hlen
      exact hlen
    · exact ⟨hs.succeeds, hs.maxBand_le, hs.bytesPerRow_eq, hs.length_bandBuf, hs.length_pageRows⟩

/-- Of the two accesses of a written page, the second covers the first. -/
theorem pageAccesses_inside {written row size : Nat} (h : written ≤ 256 * 128 * row) :
    (∀ a ∈ [(⟨0, written, 256 * size⟩ : Access), ⟨0, 256 * 128 * row, 256 * size⟩], a.Inside) ↔
      row * 128 ≤ size := by
  simp only [List.mem_cons, List.not_mem_nil, or_false, forall_eq_or_imp, forall_eq,
    Access.Inside, Nat.zero_add]
  omega

/-- A page stays inside its buffer if it is empty, or was sized by a band of at
least 128 lines. -/
theorem writePage_inside {d : DecodeCtx} {page : Bytes} {o : BandHeader}
    (hmax : d.maxBand ≤ 255) (hrow : d.bytesPerRow = rowBytesOf o)
    (hpage : page.length = 256 * bandSize o) :
    (writePage d page).Inside ↔ d.Inside ∧ (rowBytesOf o = 0 ∨ 128 ≤ o.height.toNat) := by
  have hwrite : (writePage d page).Inside ↔
      (d.touch [⟨0, (d.maxBand.toNat + 1) * 128 * d.bytesPerRow, page.length⟩,
        ⟨0, 256 * 128 * d.bytesPerRow, page.length⟩]).Inside := Iff.rfl
  have hrows : (d.maxBand.toNat + 1) * 128 * rowBytesOf o ≤ 256 * 128 * rowBytesOf o :=
    Nat.mul_le_mul_right _ (by omega)
  rw [hwrite, touch_inside, hrow, hpage, pageAccesses_inside hrows, rows_le_bandSize rfl]

theorem writePbm_inside {s : SizedCtx} (hs : Sized s) (offset : Nat) (copies : UInt16) :
    (writePbm s.1).Inside ↔ s.1.Inside ∧ EventFits s (.endPage offset copies) := by
  have hlen := hs.length_pageRows
  rw [writePbm]
  split
  · rename_i hnone
    refine (and_iff_left ?_).symm
    intro hpbm _ _ o ho
    rw [hnone, if_pos hpbm, Option.mem_def.mp ho] at hlen
    exact absurd hlen (by simp)
  · rename_i page hpage
    rw [hpage, Option.map_some] at hlen
    have hpbm : s.1.pbmPrefix.isSome = true := by
      by_contra hsome
      rw [if_neg hsome] at hlen
      simp at hlen
    rw [if_pos hpbm] at hlen
    obtain ⟨o, ho, hsize⟩ := Option.map_eq_some_iff.mp hlen.symm
    split_ifs with hneg hopen
    · refine (and_iff_left ?_).symm
      intro _ hpos
      omega
    · rw [writePage_inside hs.maxBand_le (hs.bytesPerRow_eq o ho) hsize.symm]
      refine and_congr_right fun _ => ⟨fun h _ _ _ o' ho' => ?_, fun h => ?_⟩
      · rwa [← Option.some_inj.mp (ho.symm.trans (Option.mem_def.mp ho'))]
      · exact h hpbm (Int.not_lt.mp hneg) hopen o ho
    · refine (and_iff_left ?_).symm
      intro _ _ h
      exact absurd h hopen

/-! ## Runs -/

theorem sizedStep_sized {s : SizedCtx} (hs : Sized s) (ev : Event) : Sized (sizedStep s ev) := by
  cases ev with
  | pjlLine offset line => exact hs
  | page offset h =>
    exact ⟨hs.succeeds, by simp [sizedStep, decodeStep, onPage], hs.bytesPerRow_eq,
      hs.length_bandBuf, hs.length_pageRows⟩
  | band offset h payload =>
    by_cases hcomp : h.compression = COMPRESSION_0X11
    · obtain ⟨d, o, ho, -, hd, -, -, heq⟩ := onBand_sized hs offset hcomp payload
      rw [sizedStep, ho, decodeStep, heq]
      exact decodeBand_sized hd h payload
    · rw [sizedStep, sizedBy, if_neg fun hc => hcomp hc.1, decodeStep, onBand, if_pos hcomp]
      exact ⟨hs.succeeds, hs.maxBand_le, hs.bytesPerRow_eq, hs.length_bandBuf, hs.length_pageRows⟩
  | endPage offset copies => exact writePbm_sized hs
  | endJob offset => exact hs

theorem sizedStep_inside {s : SizedCtx} (hs : Sized s) (ev : Event) :
    (sizedStep s ev).1.Inside ↔ s.1.Inside ∧ EventFits s ev := by
  cases ev with
  | pjlLine offset line => exact (and_iff_left trivial).symm
  | page offset h => exact (and_iff_left trivial).symm
  | band offset h payload =>
    by_cases hcomp : h.compression = COMPRESSION_0X11
    · obtain ⟨d, o, ho, hrow, hd, haccesses, hpbm, heq⟩ := onBand_sized hs offset hcomp payload
      have hinside : d.Inside ↔ s.1.Inside := by rw [DecodeCtx.Inside, DecodeCtx.Inside, haccesses]
      rw [sizedStep, decodeStep, heq, decodeBand_inside hd hrow, hinside, hpbm, EventFits, ho]
      refine and_congr_right fun _ => ⟨fun h _ o' ho' => ?_, fun h => h hcomp o rfl⟩
      rwa [← Option.some_inj.mp (Option.mem_def.mp ho')]
    · rw [sizedStep, decodeStep, onBand, if_pos hcomp, EventFits]
      exact (and_iff_left fun hc => absurd hc hcomp).symm
  | endPage offset copies => exact writePbm_inside hs offset copies
  | endJob offset => exact (and_iff_left trivial).symm

/-- The context `cmd_decode` starts with. -/
def decodeStart (pbmPrefix : Option Bytes) (heap : Heap UInt8) (canOpen : Nat → Bool) : DecodeCtx :=
  { pbmPrefix := pbmPrefix, heap := heap, canOpen := canOpen }

theorem run_sizedStep (s : SizedCtx) (evs : List Event) :
    (Run.run sizedStep s evs).1 = Run.run decodeStep s.1 evs := by
  induction evs generalizing s with
  | nil => rfl
  | cons ev evs ih => exact ih (sizedStep s ev)

/-- A run of callbacks from the start stays inside the buffers if and only if
each of them fits. -/
theorem run_inside_iff (pbmPrefix : Option Bytes) {heap : Heap UInt8} (canOpen : Nat → Bool)
    (hheap : heap.Succeeds) (evs : List Event) :
    (Run.run decodeStep (decodeStart pbmPrefix heap canOpen) evs).Inside ↔
      Run.Every sizedStep EventFits (decodeStart pbmPrefix heap canOpen, none) evs := by
  have hstart : Sized (decodeStart pbmPrefix heap canOpen, none) :=
    ⟨hheap, by simp [decodeStart], by simp, rfl, (ite_self none).symm⟩
  have hiff := Run.holds_iff (P := fun s : SizedCtx => s.1.Inside)
    (fun s ev hs => sizedStep_sized hs ev) (fun s ev hs => sizedStep_inside hs ev) hstart evs
  rw [run_sizedStep] at hiff
  rw [hiff]
  exact and_iff_right (by simp [DecodeCtx.Inside, decodeStart])

/-! ### Bands of 128 lines -/

/-- Bands of 128 lines fit buffers that were sized by such a band. -/
theorem every_eventFits_of_height {s : SizedCtx} (hs : ∀ o ∈ s.2, o.height = 128)
    {evs : List Event}
    (hbands : ∀ offset h payload, Event.band offset h payload ∈ evs → h.height = 128) :
    Run.Every sizedStep EventFits s evs := by
  induction evs generalizing s with
  | nil => trivial
  | cons ev evs ih =>
    have hsized : ∀ o ∈ sizedBy s.2 ev, o.height = 128 := by
      cases ev with
      | band offset h payload =>
        intro o ho
        rw [sizedBy] at ho
        split_ifs at ho
        · obtain rfl := Option.some_inj.mp (Option.mem_def.mp ho)
          exact hbands offset h payload List.mem_cons_self
        · exact hs o ho
      | _ => exact hs
    refine ⟨?_, ih hsized fun offset h payload hmem =>
      hbands offset h payload (List.mem_cons_of_mem ev hmem)⟩
    cases ev with
    | band offset h payload =>
      intro _ o ho
      rw [FitsBand, hsized o ho, hbands offset h payload List.mem_cons_self]
      exact .inr ⟨le_rfl, fun _ _ => le_rfl⟩
    | endPage offset copies =>
      intro _ _ _ o ho
      rw [hs o ho]
      exact .inr le_rfl
    | _ => trivial

/-- A job of the line that ends an envelope and of records. -/
theorem walk_enterLine (rs : List Record) :
    walk (enterLine ++ crlf ++ rs.flatMap Record.bytes) =
      ⟨.pjlLine 0 enterLine :: Record.events 26 rs, OK, none⟩ := by
  have hrecords := walkRecords_records 26 rs []
  rw [List.append_nil, walkRecords] at hrecords
  rw [walk, emitLines_crlf true 0 _ isTextLine_enterLine.1, isTextLine_enterLine.2]
  simp only [Bool.and_self, if_true, Bool.not_true, Bool.false_eq_true, if_false,
    show enterLine.length = 24 from rfl, hrecords, List.append_nil]
  rfl

/-- A payload that decodes to 128 bytes `c`, all of them raw. -/
def solidPayload (c : UInt8) : Payload where
  littleEndian := true
  table := .zero
  raw := List.replicate 128 c
  raw_le := by simp
  toks := []

/-- The header of a band 8 pixels wide, with such a payload. -/
def solidHeader (number : UInt8) : BandHeader := ⟨number, 8, 128, COMPRESSION_0X11, 268⟩

def solidBand (number c : UInt8) : Record :=
  .band (solidHeader number) (solidPayload c).bytes (by
    rw [Payload.length_bytes]
    simp [solidPayload, solidHeader])

theorem solidBand_decodes (number c : UInt8) :
    DecodesFully (solidHeader number) (solidPayload c).bytes ∧
      (codec11Decode (solidPayload c).bytes (bandSize (solidHeader number))).out =
        List.replicate 128 c := by
  have hvalid : (solidPayload c).Valid := trivial
  have hout : (solidPayload c).output = List.replicate 128 c := rfl
  have hsize : bandSize (solidHeader number) = 128 := by simp [bandSize, rowBytesOf, solidHeader]
  obtain ⟨hrc, hbytes, -⟩ := codec11Decode_bytes (solidPayload c) 128 hvalid
    (by rw [hout, List.length_replicate])
  rw [DecodesFully, hsize, hbytes, hout]
  exact ⟨⟨hrc, List.length_replicate⟩, rfl⟩

/-- The header of a page. -/
def plainPage : PageHeader := ⟨6, 1, 2, 0, 0, 1, 0, 0, 0, 0, 0, 0, 6⟩

/-- Two pages, with a black band each. -/
def twoPages : List Record :=
  [.page plainPage, solidBand 0 0, .endPage 1, .page plainPage, solidBand 1 0, .endPage 1]

/-- A job of `twoPages`. -/
def twoPagesJob : Bytes := enterLine ++ crlf ++ twoPages.flatMap Record.bytes

theorem twoPagesJob_events :
    (walk twoPagesJob).events = .pjlLine 0 enterLine :: Record.events 26 twoPages := by
  rw [twoPagesJob, walk_enterLine]

/-- Whatever the data, the decode command stays inside its buffers if and only
if each callback of its walk fits them. -/
theorem cmdDecode_inside_iff (pbmPrefix : Option Bytes) (heap : Heap UInt8) (canOpen : Nat → Bool)
    (hheap : heap.Succeeds) (data : Bytes) :
    (cmdDecode (decodeStart pbmPrefix heap canOpen) data).Inside ↔
      Run.Every sizedStep EventFits (decodeStart pbmPrefix heap canOpen, none) (walk data).events :=
  run_inside_iff pbmPrefix canOpen hheap (walk data).events

/-- Both pages are written to files, and all accesses lie inside the buffers. -/
theorem cmdDecode_inside_twoPages :
    (∀ number, DecodesFully (solidHeader number) (solidPayload 0).bytes) ∧
      (cmdDecode (decodeStart (some (ascii "out")) zeroHeap fun _ => true) twoPagesJob).Inside := by
  refine ⟨fun number => (solidBand_decodes number 0).1, ?_⟩
  rw [cmdDecode_inside_iff (some (ascii "out")) zeroHeap (fun _ => true) zeroHeap_succeeds
    twoPagesJob, twoPagesJob_events]
  apply every_eventFits_of_height (fun o ho => absurd ho (Option.not_mem_none o))
  intro offset h payload hmem
  simp only [twoPages, Record.events, Record.event, solidBand, List.mem_cons, List.not_mem_nil,
    reduceCtorEq, false_or, or_false, Event.band.injEq] at hmem
  rcases hmem with ⟨-, rfl, -⟩ | ⟨-, rfl, -⟩ <;> rfl

/-- A 0x11 band of this height, 256 pixels wide, whose payload is empty. -/
def emptyBand (height : UInt16) : Record :=
  .band ⟨0, 256, height, COMPRESSION_0X11, 0⟩ [] rfl

/-- A band of one line, and one of 128 lines with as many bytes per row. -/
def tallerBand : Bytes :=
  enterLine ++ crlf ++ [emptyBand 1, emptyBand 128].flatMap Record.bytes

/-- The second band is decoded with a capacity of 4096 bytes into a buffer of
32. -/
theorem cmdDecode_tallerBand :
    ¬(cmdDecode (decodeStart none zeroHeap fun _ => true) tallerBand).Inside := by
  have hwalk : (walk tallerBand).events =
      .pjlLine 0 enterLine :: Record.events 26 [emptyBand 1, emptyBand 128] := by
    rw [tallerBand, walk_enterLine]
  intro hinside
  have hevery := (run_inside_iff none (fun _ => true) zeroHeap_succeeds _).mp hinside
  rw [hwalk] at hevery
  obtain ⟨-, -, htall, -⟩ := hevery
  rcases htall rfl ⟨0, 256, 1, COMPRESSION_0X11, 0⟩ rfl with h0 | ⟨hle, -⟩
  · exact absurd h0 (by decide)
  · exact absurd hle (by decide)

end Airbridge.Cli
