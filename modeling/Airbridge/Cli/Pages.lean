import Airbridge.Cli.PageLog
import Mathlib.Tactic.Ring

/-!
# The pages of the decode command

The bitmap holds the bands decoded since the latest written PBM (`Tracks`, an
invariant of every callback for bands of one width), so a written PBM shows its
page exactly under the condition `PagesApart`.
-/

namespace Airbridge.Cli

open Airbridge.Qpdl Memory

/-! ## The bitmap holds what the log says -/

/-- The bitmap holds the bands decoded since the latest written PBM. -/
structure Tracks (width : UInt16) (s : LoggedCtx) : Prop where
  consistent : s.2.Consistent (bandBytes width)
  unused : s.1.bandBuf = none → s.2 = {}
  bytesPerRow_eq : s.1.bandBuf ≠ none ∨ s.1.pageRows ≠ none → s.1.bytesPerRow = width.toNat / 8
  length_bandBuf : ∀ band ∈ s.1.bandBuf, band.length = bandBytes width
  length_page : ∀ page ∈ s.1.pageRows, page.length = 256 * bandBytes width
  page_eq : ∀ page ∈ s.1.pageRows, ∀ line < 256 * 128, ∀ col < width.toNat / 8,
    byteAt page (line * (width.toNat / 8) + col) = s.2.held.pageByte line col
  maxBand_le : s.1.maxBand ≤ 255
  le_maxBand : s.1.pageRows ≠ none → ∀ k, s.2.shown k ≠ none → (k : Int) ≤ s.1.maxBand
  bandWidth_or : s.1.bandWidth = 0 ∨ s.1.bandWidth = width
  bandWidth_eq : s.1.pageRows ≠ none → 0 ≤ s.1.maxBand → s.1.bandWidth = width

theorem tracks_start (width : UInt16) (pbmPrefix : Option Bytes) (heap : Heap UInt8)
    (canOpen : Nat → Bool) : Tracks width (decodeStart pbmPrefix heap canOpen, {}) where
  consistent := consistent_start _
  unused := fun _ => rfl
  bytesPerRow_eq := fun h => absurd h (by simp [decodeStart])
  length_bandBuf := fun band hband => absurd hband (Option.not_mem_none band)
  length_page := fun page hpage => absurd hpage (Option.not_mem_none page)
  page_eq := fun page hpage => absurd hpage (Option.not_mem_none page)
  maxBand_le := by simp [decodeStart]
  le_maxBand := fun h => absurd rfl h
  bandWidth_or := .inl rfl
  bandWidth_eq := fun h => absurd rfl h

theorem tracks_page {width : UInt16} {s : LoggedCtx} (hs : Tracks width s) :
    Tracks width (onPage s.1, { stale := s.2.held }) where
  consistent := consistent_page hs.consistent
  unused := by
    intro hnone
    rw [hs.unused hnone]
    show ({ stale := Bands.empty.overlay Bands.empty } : PageLog) = {}
    rw [Bands.overlay_empty]
  bytesPerRow_eq := hs.bytesPerRow_eq
  length_bandBuf := hs.length_bandBuf
  length_page := hs.length_page
  page_eq := hs.page_eq
  maxBand_le := by simp [onPage]
  le_maxBand := fun _ k hk => absurd rfl hk
  bandWidth_or := .inl rfl
  bandWidth_eq := fun _ hpos => absurd hpos (by simp [onPage])

/-! ### The end of a page -/

theorem byteAt_replicate_zero (n i : Nat) : byteAt (List.replicate n 0) i = 0 := by
  rw [byteAt, List.getD_eq_getElem?_getD, List.getElem?_replicate]
  split_ifs <;> rfl

/-- The bitmap behind a written PBM is white. -/
theorem cleared_eq {width : UInt16} {s : LoggedCtx} (hs : Tracks width s) {page : Bytes}
    (hpage : s.1.pageRows = some page) :
    Buffer.store page 0 (List.replicate (256 * 128 * s.1.bytesPerRow) 0) =
      List.replicate (256 * bandBytes width) 0 := by
  have hrow := hs.bytesPerRow_eq (.inr (by rw [hpage]; exact Option.some_ne_none page))
  have hsize : 256 * 128 * s.1.bytesPerRow = 256 * bandBytes width := by
    rw [hrow, bandBytes, Nat.mul_comm (width.toNat / 8), ← Nat.mul_assoc]
  rw [hsize]
  apply Buffer.store_zero
  rw [List.length_replicate, hs.length_page page hpage]

theorem writePbm_some {d : DecodeCtx} {page : Bytes} (hpage : d.pageRows = some page) :
    writePbm d = if d.maxBand < 0 then d
      else if d.canOpen d.opened then writePage d page
      else { d with opened := d.opened + 1, errors := d.errors + 1 } := by
  rw [writePbm, hpage]

/-- The two ways an end-of-page record goes. -/
theorem writePbm_cases (d : DecodeCtx) :
    (WritesPage d ∧ ∃ page, d.pageRows = some page ∧ writePbm d = writePage d page) ∨
      ¬WritesPage d ∧ ∃ opened errors, writePbm d = { d with opened := opened, errors := errors } := by
  rcases d.pageRows.eq_none_or_eq_some with hpage | ⟨page, hpage⟩
  · have heq : writePbm d = d := by rw [writePbm, hpage]
    exact .inr ⟨fun h => h.1 hpage, d.opened, d.errors, heq⟩
  · rw [writePbm_some hpage]
    split_ifs with hneg hopen
    · exact .inr ⟨fun h => absurd h.2.1 (not_le.mpr hneg), d.opened, d.errors, rfl⟩
    · have hrows : d.pageRows ≠ none := by
        rw [hpage]
        exact Option.some_ne_none page
      exact .inl ⟨⟨hrows, not_lt.mp hneg, hopen⟩, page, hpage, rfl⟩
    · exact .inr ⟨fun h => hopen h.2.2, d.opened + 1, d.errors + 1, rfl⟩

theorem tracks_endPage {width : UInt16} {s : LoggedCtx} (hs : Tracks width s) (offset : Nat)
    (copies : UInt16) : Tracks width (loggedStep s (.endPage offset copies)) := by
  show Tracks width (writePbm s.1, if WritesPage s.1 then _ else s.2)
  rcases writePbm_cases s.1 with ⟨hwrites, page, hpage, heq⟩ | ⟨hno, opened, errors, heq⟩
  · have hclear := cleared_eq hs hpage
    rw [heq, if_pos hwrites]
    have hrows : (writePage s.1 page).pageRows = some (List.replicate (256 * bandBytes width) 0) :=
      congrArg some hclear
    refine ⟨consistent_written hs.consistent, ?_, ?_, hs.length_bandBuf, ?_, ?_, hs.maxBand_le, ?_,
      hs.bandWidth_or, ?_⟩
    · intro hnone
      rw [hs.unused hnone]
    · intro _
      exact hs.bytesPerRow_eq (.inr hwrites.1)
    · intro page' hpage'
      rw [hrows, Option.mem_some_iff] at hpage'
      rw [← hpage', List.length_replicate]
    · intro page' hpage' line _ col _
      rw [hrows, Option.mem_some_iff] at hpage'
      rw [← hpage', byteAt_replicate_zero]
      rfl
    · intro _
      exact hs.le_maxBand hwrites.1
    · intro _
      exact hs.bandWidth_eq hwrites.1
  · rw [heq, if_neg hno]
    exact ⟨hs.consistent, hs.unused, hs.bytesPerRow_eq, hs.length_bandBuf, hs.length_page,
      hs.page_eq, hs.maxBand_le, hs.le_maxBand, hs.bandWidth_or, hs.bandWidth_eq⟩

/-! ### A band -/

/-- `on_band` notes the width of the first band of a page. -/
def noteWidth (d : DecodeCtx) (h : BandHeader) : DecodeCtx :=
  { d with bandWidth := if d.bandWidth = 0 then h.width else d.bandWidth }

theorem withBuffers_noteWidth (d : DecodeCtx) (h : BandHeader) :
    (withBuffers (noteWidth d h) h).bandBuf = (withBuffers d h).bandBuf := by
  show (if d.bandBuf = none ∨ d.bytesPerRow ≠ rowBytesOf h then _ else _ : DecodeCtx).bandBuf = _
  rw [withBuffers]
  split_ifs <;> rfl

/-- The three ways a band goes. -/
theorem onBand_cases (d : DecodeCtx) (h : BandHeader) (payload : Bytes) :
    let d1 := withBuffers (noteWidth d h) h
    h.compression ≠ COMPRESSION_0X11 ∧ onBand d h payload = noteWidth d h ∨
      h.compression = COMPRESSION_0X11 ∧ ¬Buffered d h ∧
        onBand d h payload = { d1 with errors := d.errors + 1 } ∨
      h.compression = COMPRESSION_0X11 ∧ Buffered d h ∧
        onBand d h payload = decodeBand d1 h payload (rowBytesOf h) (bandSize h) := by
  intro d1
  rw [onBand]
  dsimp only
  by_cases hcomp : h.compression = COMPRESSION_0X11
  · right
    rw [if_neg (not_not.mpr hcomp)]
    by_cases hmissing : d.bandBuf = none ∨ d.bytesPerRow ≠ rowBytesOf h
    · have hd1 : d1 = allocate (noteWidth d h) (rowBytesOf h) (bandSize h) := if_pos hmissing
      have hbuffers : Buffered d h ↔ d1.bandBuf ≠ none ∧ d1.rowsBuf ≠ none := by
        have hd : withBuffers d h = allocate d (rowBytesOf h) (bandSize h) := if_pos hmissing
        rw [hd1, Buffered, hd]
        exact ⟨fun hb => hb hmissing, fun hb _ => hb⟩
      rw [hbuffers, hd1]
      by_cases hnull : (allocate (noteWidth d h) (rowBytesOf h) (bandSize h)).bandBuf = none ∨
          (allocate (noteWidth d h) (rowBytesOf h) (bandSize h)).rowsBuf = none
      · refine .inl ⟨hcomp, ?_, ?_⟩
        · rw [not_and_or, not_not, not_not]
          exact hnull
        · exact (if_pos hmissing).trans (if_pos hnull)
      · refine .inr ⟨hcomp, not_or.mp hnull, ?_⟩
        exact (if_pos hmissing).trans (if_neg hnull)
    · have hd1 : d1 = noteWidth d h := if_neg hmissing
      rw [hd1]
      exact .inr ⟨hcomp, fun hm => absurd hm hmissing, if_neg hmissing⟩
  · exact .inl ⟨hcomp, if_pos hcomp⟩

variable {width : UInt16} {h : BandHeader} (hheight : h.height = 128) (hwidth : h.width = width)

include hheight hwidth in
theorem bandSize_eq : bandSize h = bandBytes width := by
  rw [bandSize, rowBytesOf, bandBytes, hheight, hwidth]
  rfl

include hwidth in
theorem tracks_noteWidth {s : LoggedCtx} (hs : Tracks width s) :
    Tracks width (noteWidth s.1 h, s.2) ∧ (noteWidth s.1 h).bandWidth = width := by
  have hnoted : (noteWidth s.1 h).bandWidth = width := by
    rw [noteWidth]
    dsimp only
    split_ifs with hzero
    · exact hwidth
    · exact hs.bandWidth_or.resolve_left hzero
  exact ⟨⟨hs.consistent, hs.unused, hs.bytesPerRow_eq, hs.length_bandBuf, hs.length_page,
    hs.page_eq, hs.maxBand_le, hs.le_maxBand, .inr hnoted, fun _ _ => hnoted⟩, hnoted⟩

/-- What `allocate` puts into the page. -/
theorem allocate_pageRows (d : DecodeCtx) (bpr expect : Nat) {page : Bytes}
    (hpage : (allocate d bpr expect).pageRows = some page) :
    page = List.replicate (256 * expect) 0 := by
  rw [allocate] at hpage
  dsimp only at hpage
  split_ifs at hpage
  have hlen := Heap.length_calloc hpage
  obtain ⟨cells, -, rfl⟩ := Option.map_eq_some_iff.mp hpage
  rw [List.map_const', List.length_replicate] at *
  rw [hlen]

include hheight hwidth in
/-- Buffers are only allocated before the first band is decoded. -/
theorem tracks_withBuffers {s : LoggedCtx} (hs : Tracks width s) (hnoted : s.1.bandWidth = width) :
    Tracks width (withBuffers s.1 h, s.2) := by
  rw [withBuffers]
  split_ifs with hmissing
  · have hunused : s.1.bandBuf = none := by
      by_contra hband
      have hrow := hs.bytesPerRow_eq (.inl hband)
      rw [rowBytesOf, hwidth] at hmissing
      exact hmissing.elim hband fun hne => hne hrow
    have hlog : s.2 = {} := hs.unused hunused
    have hsize := bandSize_eq hheight hwidth
    rw [hlog]
    refine ⟨consistent_start _, fun _ => rfl, ?_, ?_, ?_, ?_, hs.maxBand_le, ?_, .inr hnoted,
      fun _ _ => hnoted⟩
    · intro _
      show rowBytesOf h = _
      rw [rowBytesOf, hwidth]
    · intro band hband
      rw [← hsize]
      exact Heap.length_malloc hband
    · intro page hpage
      rw [allocate_pageRows _ _ _ hpage, List.length_replicate, hsize]
    · intro page hpage line _ col _
      rw [allocate_pageRows _ _ _ hpage, byteAt_replicate_zero]
      rfl
    · intro _ k hk
      exact absurd rfl hk
  · exact hs

/-- In front of a place, a page keeps its bytes. -/
theorem byteAt_place_before {page : Bytes} {a i : Nat} (rows : Bytes) (ha : a ≤ page.length)
    (hi : i < a) : byteAt (page.take a ++ rows) i = byteAt page i := by
  rw [byteAt_append rows (by rwa [List.length_take_of_le ha]), byteAt_take page hi]

theorem byteAt_place {page : Bytes} {a : Nat} (rows : Bytes) (ha : a ≤ page.length) (i : Nat) :
    byteAt (page.take a ++ rows) (a + i) = byteAt rows i := by
  have h := byteAt_append_right (page.take a) rows i
  rwa [List.length_take_of_le ha] at h

/-- A band that is placed replaces the rows of its number and no others. -/
theorem byteAt_placed {bands : Bands} {page band : Bytes} {number : UInt8}
    (hpage : page.length = 256 * bandBytes width)
    (hbytes : ∀ line < 256 * 128, ∀ col < width.toNat / 8,
      byteAt page (line * (width.toNat / 8) + col) = bands.pageByte line col)
    {line col : Nat} (hline : line < 256 * 128) (hcol : col < width.toNat / 8) :
    byteAt (page.take (number.toNat * bandBytes width) ++
        bandToRows band (width.toNat / 8) (page.drop (number.toNat * bandBytes width)))
      (line * (width.toNat / 8) + col) = (bands.put number band).pageByte line col := by
  have hcell := hbytes line hline col hcol
  have hnumber := number.toNat_lt
  obtain ⟨k, l, hl, rfl⟩ : ∃ k l, l < 128 ∧ line = k * 128 + l :=
    ⟨line / 128, line % 128, Nat.mod_lt _ (by decide), by omega⟩
  have hindex : (k * 128 + l) * (width.toNat / 8) + col =
      k * bandBytes width + (l * (width.toNat / 8) + col) := by
    rw [bandBytes]
    ring
  have hrow : l * (width.toNat / 8) + col < bandBytes width :=
    (rowIndex_lt (mem_bandCells.mpr ⟨hcol, hl⟩ : (col, l) ∈ _)).trans_eq rfl
  have hstart : number.toNat * bandBytes width + bandBytes width ≤ page.length := by
    rw [hpage, ← Nat.succ_mul]
    exact Nat.mul_le_mul_right _ hnumber
  have hroom : number.toNat * bandBytes width ≤ page.length := by omega
  have hplace : (k * 128 + l) / 128 = k ∧ (k * 128 + l) % 128 = l := columnIndex_div_mod k hl
  rw [Bands.pageByte, hplace.1, hplace.2] at hcell ⊢
  rw [hindex] at hcell ⊢
  rcases Nat.lt_trichotomy k number.toNat with hlt | rfl | hgt
  · -- in front of the band
    have hbefore : k * bandBytes width + (l * (width.toNat / 8) + col) <
        number.toNat * bandBytes width := by
      rw [Nat.mul_comm k]
      exact Nat.mul_add_lt_mul_of_lt_of_lt hlt hrow
    rw [Bands.put_of_ne _ _ hlt.ne, ← hcell, byteAt_place_before _ hroom hbefore]
  · have hfits : width.toNat / 8 * 128 ≤ (page.drop (number.toNat * bandBytes width)).length := by
      rw [List.length_drop]
      exact Nat.le_sub_of_add_le' hstart
    rw [Bands.put_same, byteAt_place _ hroom]
    exact byteAt_bandToRows band _ hfits hcol hl
  · -- behind it
    obtain ⟨i, hi, hle⟩ : ∃ i, k * bandBytes width = number.toNat * bandBytes width + i ∧
        bandBytes width ≤ i := by
      refine ⟨(k - number.toNat) * bandBytes width, ?_, ?_⟩
      · rw [← Nat.add_mul, Nat.add_sub_cancel' hgt.le]
      · exact Nat.le_mul_of_pos_left _ (Nat.sub_pos_of_lt hgt)
    rw [Bands.put_of_ne _ _ hgt.ne', ← hcell, hi, Nat.add_assoc, byteAt_place _ hroom,
      byteAt_bandToRows_behind band _ (hle.trans (Nat.le_add_right _ _)), byteAt_drop]

/-- The number of errors is no part of what is tracked. -/
theorem Tracks.errors {d : DecodeCtx} {log : PageLog} (hs : Tracks width (d, log)) (n : Nat) :
    Tracks width ({ d with errors := n }, log) :=
  ⟨hs.consistent, hs.unused, hs.bytesPerRow_eq, hs.length_bandBuf, hs.length_page, hs.page_eq,
    hs.maxBand_le, hs.le_maxBand, hs.bandWidth_or, hs.bandWidth_eq⟩

/-- The decoder has run on a band, and the result is not placed. -/
theorem tracks_decoded {s : LoggedCtx} (hs : Tracks width s) {band : Bytes}
    (hband : s.1.bandBuf = some band) (payload : Bytes) (expect : Nat) :
    Tracks width (decoded s.1 payload expect, s.2) := by
  refine ⟨hs.consistent, ?_, ?_, ?_, hs.length_page, hs.page_eq, hs.maxBand_le, hs.le_maxBand,
    hs.bandWidth_or, hs.bandWidth_eq⟩
  · intro hnone
    exact absurd hnone (Option.some_ne_none _)
  · intro _
    exact hs.bytesPerRow_eq (.inl (by rw [hband]; exact Option.some_ne_none band))
  · rintro _ ⟨rfl⟩
    rw [Buffer.length_store, hband]
    exact hs.length_bandBuf band hband

/-- The decoded band is placed on the bitmap. -/
theorem tracks_placed {d : DecodeCtx} {log : PageLog} (hs : Tracks width (d, log)) {page out : Bytes}
    (hpage : d.pageRows = some page) (hout : d.bandBuf = some out) (hnoted : d.bandWidth = width)
    (number : UInt8) :
    Tracks width (placeBand d number (width.toNat / 8) (bandBytes width) out page,
      log.decode number out) := by
  have hlen : out.length = bandBytes width := hs.length_bandBuf out hout
  have hput : (log.decode number out).held = log.held.put number out := Bands.put_overlay _ _ _ _
  have hbuffer : d.bandBuf ≠ none := by
    rw [hout]
    exact Option.some_ne_none out
  refine ⟨consistent_decode hs.consistent number hlen, ?_, ?_, hs.length_bandBuf, ?_, ?_, ?_, ?_,
    hs.bandWidth_or, fun _ _ => hnoted⟩
  · intro hnull
    exact absurd hnull hbuffer
  · intro _
    exact hs.bytesPerRow_eq (.inl hbuffer)
  · rintro _ ⟨rfl⟩
    rw [List.length_append, length_bandToRows, ← List.length_append, List.take_append_drop]
    exact hs.length_page page hpage
  · rintro _ ⟨rfl⟩ line hline col hcol
    rw [hput]
    exact byteAt_placed (hs.length_page page hpage) (hs.page_eq page hpage) hline hcol
  · have hnumber := number.toNat_lt
    have hmax : d.maxBand ≤ 255 := hs.maxBand_le
    show (if (number.toNat : Int) > d.maxBand then (number.toNat : Int) else d.maxBand) ≤ 255
    split_ifs <;> omega
  · intro _ k hk
    have hold := hs.le_maxBand (by rw [hpage]; exact Option.some_ne_none page)
    show (k : Int) ≤ if (number.toNat : Int) > d.maxBand then (number.toNat : Int) else d.maxBand
    by_cases hnumber : k = number.toNat
    · subst hnumber
      split_ifs <;> omega
    · have hle : (k : Int) ≤ d.maxBand := hold k (by
        intro hnone
        exact hk ((Bands.put_of_ne _ _ hnumber).trans hnone))
      split_ifs <;> omega

include hheight hwidth in
theorem tracks_decodeBand {s : LoggedCtx} (hs : Tracks width s) (hnoted : s.1.bandWidth = width)
    (hbuffer : s.1.bandBuf ≠ none) (payload : Bytes) :
    Tracks width (decodeBand s.1 h payload (rowBytesOf h) (bandSize h),
      if DecodesFully h payload then s.2.decode h.number (codec11Decode payload (bandSize h)).out
      else s.2) := by
  obtain ⟨band, hband⟩ := Option.ne_none_iff_exists'.mp hbuffer
  have hsize := bandSize_eq hheight hwidth
  have hdecoded := tracks_decoded hs hband payload (bandSize h)
  rcases decodeBand_cases s.1 h payload with ⟨hbad, heq⟩ | ⟨hfull, hnone, heq⟩ |
    ⟨hfull, page, out, hpage, hout, heq⟩
  · rw [heq, if_neg hbad]
    exact hdecoded.errors _
  · rw [heq, if_pos hfull]
    have hlen := hfull.2.trans hsize
    refine ⟨consistent_decode hs.consistent h.number hlen, ?_, hdecoded.bytesPerRow_eq,
      hdecoded.length_bandBuf, hs.length_page, ?_, hs.maxBand_le, fun hpage => absurd hnone hpage,
      hs.bandWidth_or, hs.bandWidth_eq⟩
    · intro hnull
      exact absurd hnull (Option.some_ne_none _)
    · intro page hpage
      rw [show (decoded s.1 payload (bandSize h)).pageRows = none from hnone] at hpage
      exact absurd hpage (Option.not_mem_none page)
  · have hrow : rowBytesOf h = width.toNat / 8 := by rw [rowBytesOf, hwidth]
    -- the buffer holds the decoded bytes
    have hstored : out = (codec11Decode payload (bandSize h)).out := by
      have hmem := Option.some.inj hout
      rw [hband, Option.getD_some] at hmem
      rw [← hmem]
      apply Buffer.store_zero
      rw [hfull.2, hsize, hs.length_bandBuf band hband]
    rw [heq, if_pos hfull, ← hstored, hrow]
    rw [hsize] at hdecoded hout ⊢
    exact tracks_placed hdecoded hpage hout hnoted h.number

include hheight hwidth in
theorem tracks_band {s : LoggedCtx} (hs : Tracks width s) (offset : Nat) (payload : Bytes) :
    Tracks width (loggedStep s (.band offset h payload)) := by
  obtain ⟨hnote, hnoted⟩ := tracks_noteWidth hwidth hs
  have hbuffers := tracks_withBuffers hheight hwidth hnote hnoted
  have hwide : (withBuffers (noteWidth s.1 h) h).bandWidth = width := by
    rw [withBuffers]
    split_ifs
    · exact hnoted
    · exact hnoted
  show Tracks width (onBand s.1 h payload, if Decoded s.1 h payload then _ else s.2)
  rcases onBand_cases s.1 h payload with ⟨hcomp, heq⟩ | ⟨-, hnull, heq⟩ | ⟨hcomp, hbuffered, heq⟩
  · rw [heq, if_neg fun hd => hcomp hd.1]
    exact hnote
  · rw [heq, if_neg fun hd => hnull hd.2.1]
    exact hbuffers.errors _
  · have hband : (withBuffers (noteWidth s.1 h) h).bandBuf ≠ none := by
      rw [withBuffers_noteWidth]
      by_cases hmissing : s.1.bandBuf = none ∨ s.1.bytesPerRow ≠ rowBytesOf h
      · exact (hbuffered hmissing).1
      · rw [withBuffers, if_neg hmissing]
        exact (not_or.mp hmissing).1
    have hstep := tracks_decodeBand hheight hwidth hbuffers hwide hband payload
    rw [heq]
    by_cases hfull : DecodesFully h payload
    · rw [if_pos ⟨hcomp, hbuffered, hfull⟩]
      rw [if_pos hfull] at hstep
      exact hstep
    · rw [if_neg fun hd => hfull hd.2.2]
      rw [if_neg hfull] at hstep
      exact hstep

/-! ## Runs -/

theorem tracks_step {s : LoggedCtx} (hs : Tracks width s) {ev : Event} (hev : UniformBand width ev) :
    Tracks width (loggedStep s ev) := by
  cases ev with
  | pjlLine offset line => exact hs
  | page offset h => exact tracks_page hs
  | band offset h payload => exact tracks_band hev.1 hev.2 hs offset payload
  | endPage offset copies => exact tracks_endPage hs offset copies
  | endJob offset => exact hs

/-- A band does not touch the files. -/
theorem onBand_frame (d : DecodeCtx) (h : BandHeader) (payload : Bytes) :
    (onBand d h payload).files = d.files ∧ (onBand d h payload).opened = d.opened ∧
      (onBand d h payload).canOpen = d.canOpen ∧ (onBand d h payload).pbmPrefix = d.pbmPrefix := by
  have hbuffers : (withBuffers (noteWidth d h) h).files = d.files ∧
      (withBuffers (noteWidth d h) h).opened = d.opened ∧
      (withBuffers (noteWidth d h) h).canOpen = d.canOpen ∧
      (withBuffers (noteWidth d h) h).pbmPrefix = d.pbmPrefix := by
    rw [withBuffers]
    split_ifs <;> exact ⟨rfl, rfl, rfl, rfl⟩
  rcases onBand_cases d h payload with ⟨-, heq⟩ | ⟨-, -, heq⟩ | ⟨-, -, heq⟩
  · rw [heq]
    exact ⟨rfl, rfl, rfl, rfl⟩
  · rw [heq]
    exact hbuffers
  · rw [heq]
    generalize withBuffers (noteWidth d h) h = d1 at hbuffers ⊢
    rcases decodeBand_cases d1 h payload with ⟨-, heq⟩ | ⟨-, -, heq⟩ | ⟨-, page, band, -, -, heq⟩
    · rw [heq]
      exact hbuffers
    · rw [heq]
      exact hbuffers
    · rw [heq]
      exact hbuffers

theorem files_ne_snoc {files files' : List Pbm} (h : files' = files) (f : Pbm) :
    files' ≠ files ++ [f] := by
  intro hsnoc
  have hlen := congrArg List.length (h.symm.trans hsnoc)
  rw [List.length_append, List.length_singleton] at hlen
  omega

theorem showsPage_iff {s : LoggedCtx} (hs : Tracks width s) (ev : Event) :
    ShowsPage width s ev ↔ PagesApart width s ev := by
  have hnone (hsame : (decodeStep s.1 ev).files = s.1.files) : ShowsPage width s ev :=
    fun f hf => absurd hf (files_ne_snoc hsame f)
  cases ev with
  | pjlLine offset line => exact iff_of_true (hnone rfl) trivial
  | page offset h => exact iff_of_true (hnone rfl) trivial
  | band offset h payload => exact iff_of_true (hnone (onBand_frame s.1 h payload).1) trivial
  | endPage offset copies =>
    rcases writePbm_cases s.1 with ⟨hwrites, page, hpage, heq⟩ | ⟨hno, opened, errors, heq⟩
    · have hfile : (decodeStep s.1 (.endPage offset copies)).files = s.1.files ++ [pbmOf s.1 page] := by
        rw [decodeStep, heq]
        rfl
      have hshows : ShowsPage width s (.endPage offset copies) ↔
          (pbmOf s.1 page).Shows width s.2.shown := by
        rw [ShowsPage, hfile]
        constructor
        · intro hall
          exact hall _ rfl
        · intro hf f hsnoc
          rw [← List.singleton_injective (List.append_cancel_left hsnoc)]
          exact hf
      rw [hshows, shows_iff (hs.bytesPerRow_eq (.inr hwrites.1))
        (hs.bandWidth_eq hwrites.1 hwrites.2.1) (hs.length_page page hpage) hs.maxBand_le
        hwrites.2.1 (hs.page_eq page hpage) (hs.le_maxBand hwrites.1), PagesApart]
      simp only [held_eq_shown_iff hs.consistent]
      exact ⟨fun h _ => h, fun h => h hwrites⟩
    · refine iff_of_true (hnone ?_) fun hwrites => absurd hwrites hno
      rw [decodeStep, heq]
  | endJob offset => exact iff_of_true (hnone rfl) trivial

/-- A run of callbacks for bands of one width shows each page exactly when the
pages stay apart. -/
theorem run_showsPage_iff (width : UInt16) (pbmPrefix : Option Bytes) (heap : Heap UInt8)
    (canOpen : Nat → Bool) {evs : List Event} (hevs : ∀ ev ∈ evs, UniformBand width ev) :
    Run.Every loggedStep (ShowsPage width) (decodeStart pbmPrefix heap canOpen, {}) evs ↔
      Run.Every loggedStep (PagesApart width) (decodeStart pbmPrefix heap canOpen, {}) evs := by
  refine Run.every_iff_of_mem ?_ ?_ (tracks_start width pbmPrefix heap canOpen)
  · intro s ev _ hs
    exact showsPage_iff hs ev
  · intro s ev hev hs _
    exact tracks_step hs (hevs ev hev)

/-- Whatever the job and whichever files open: when all bands have 128 lines
and one width, each PBM holds exactly the bands decoded since the latest page
record, if and only if at each written PBM the width is a multiple of 8, and
the bands from before that record and those of an earlier PBM of the page are
white or decoded again since. -/
theorem cmdDecode_pages_iff (pbmPrefix : Option Bytes) (heap : Heap UInt8) (canOpen : Nat → Bool)
    (data : Bytes) (width : UInt16) (hbands : ∀ ev ∈ (walk data).events, UniformBand width ev) :
    Run.Every loggedStep (ShowsPage width) (decodeStart pbmPrefix heap canOpen, {})
        (walk data).events ↔
      Run.Every loggedStep (PagesApart width) (decodeStart pbmPrefix heap canOpen, {})
        (walk data).events :=
  run_showsPage_iff width pbmPrefix heap canOpen hbands

/-! ## A page whose file cannot be opened -/

/-- Pages are to be written, and no allocation fails. -/
structure Roomy (d : DecodeCtx) : Prop where
  pbm : d.pbmPrefix.isSome = true
  succeeds : d.heap.Succeeds
  maxBand_le : d.maxBand ≤ 255
  page : d.bandBuf ≠ none → d.pageRows ≠ none

theorem Roomy.buffers {d : DecodeCtx} (hd : Roomy d) (h : BandHeader) :
    Buffered d h ∧ Roomy (withBuffers d h) ∧ (withBuffers d h).pageRows ≠ none ∧
      (withBuffers d h).maxBand = d.maxBand := by
  rw [Buffered, withBuffers]
  split_ifs with hmissing
  · obtain ⟨hrows, hsized⟩ := allocate_sized hd.succeeds hd.maxBand_le h
    have hband := hsized.length_bandBuf
    have hpages := hsized.length_pageRows
    rw [Option.map_some] at hband
    rw [if_pos (show (allocate d _ _).pbmPrefix.isSome = true from hd.pbm), Option.map_some]
      at hpages
    have hpage : (allocate d (rowBytesOf h) (bandSize h)).pageRows ≠ none := by
      intro hnone
      rw [hnone] at hpages
      exact absurd hpages (Option.some_ne_none _).symm
    refine ⟨fun _ => ⟨?_, hrows⟩, ⟨hd.pbm, hsized.succeeds, hd.maxBand_le, fun _ => hpage⟩, hpage, rfl⟩
    intro hnone
    rw [hnone] at hband
    exact absurd hband (Option.some_ne_none _).symm
  · exact ⟨fun hm => absurd hm hmissing, hd, hd.page (not_or.mp hmissing).1, rfl⟩

/-- With a prefix and enough memory, a band that decodes is placed. -/
theorem Roomy.band {d : DecodeCtx} (hd : Roomy d) {h : BandHeader} {payload : Bytes}
    (hcomp : h.compression = COMPRESSION_0X11) (hfull : DecodesFully h payload) :
    Decoded d h payload ∧ Roomy (onBand d h payload) ∧ (onBand d h payload).pageRows ≠ none ∧
      (onBand d h payload).maxBand =
        if (h.number.toNat : Int) > d.maxBand then (h.number.toNat : Int) else d.maxBand := by
  have hbuffered := (hd.buffers h).1
  have hnoted : Roomy (noteWidth d h) := ⟨hd.pbm, hd.succeeds, hd.maxBand_le, hd.page⟩
  obtain ⟨-, hroomy, hrows, hsame⟩ := hnoted.buffers h
  refine ⟨⟨hcomp, hbuffered, hfull⟩, ?_⟩
  rcases onBand_cases d h payload with ⟨hno, -⟩ | ⟨-, hno, -⟩ | ⟨-, -, heq⟩
  · exact absurd hcomp hno
  · exact absurd hbuffered hno
  · rw [heq]
    generalize withBuffers (noteWidth d h) h = d1 at hroomy hrows hsame
    rcases decodeBand_cases d1 h payload with ⟨hbad, -⟩ | ⟨-, hnone, -⟩ | ⟨-, page, band, -, -, heq⟩
    · exact absurd hfull hbad
    · exact absurd hnone hrows
    · rw [heq]
      have hplaced : (placeBand (decoded d1 payload (bandSize h)) h.number (rowBytesOf h)
          (bandSize h) band page).maxBand =
            if (h.number.toNat : Int) > d.maxBand then (h.number.toNat : Int) else d.maxBand := by
        show (if (h.number.toNat : Int) > d1.maxBand then (h.number.toNat : Int) else d1.maxBand) = _
        rw [hsame]
        rfl
      refine ⟨⟨hroomy.pbm, hroomy.succeeds, ?_, fun _ => Option.some_ne_none _⟩,
        Option.some_ne_none _, hplaced⟩
      have hnumber := h.number.toNat_lt
      have hmax := hd.maxBand_le
      rw [hplaced]
      split_ifs <;> omega

/-- The end of a page whose file cannot be opened. -/
theorem endPage_closed {s : LoggedCtx} (hpage : s.1.pageRows ≠ none) (hpos : 0 ≤ s.1.maxBand)
    (hclosed : s.1.canOpen s.1.opened = false) (pos : Nat) (copies : UInt16) :
    loggedStep s (.endPage pos copies) =
      ({ s.1 with opened := s.1.opened + 1, errors := s.1.errors + 1 }, s.2) := by
  obtain ⟨page, hpage⟩ := Option.ne_none_iff_exists'.mp hpage
  have hlog : logStep s (.endPage pos copies) = s.2 := by
    apply if_neg
    intro hwrites
    exact absurd (hclosed.symm.trans hwrites.2.2) Bool.false_ne_true
  rw [loggedStep, hlog, decodeStep, writePbm_some hpage, if_neg (not_lt.mpr hpos), hclosed]
  rfl

theorem solidBand_step {s : LoggedCtx} (hs : Roomy s.1) (pos : Nat) (number c : UInt8) :
    ∃ d, loggedStep s (.band pos (solidHeader number) (solidPayload c).bytes) =
        (d, s.2.decode number (List.replicate 128 c)) ∧
      Roomy d ∧ d.pageRows ≠ none ∧ d.opened = s.1.opened ∧ d.canOpen = s.1.canOpen ∧
      d.maxBand =
        if (number.toNat : Int) > s.1.maxBand then (number.toNat : Int) else s.1.maxBand := by
  obtain ⟨hfull, hout⟩ := solidBand_decodes number c
  obtain ⟨hdecoded, hroomy, hpage, hmax⟩ := hs.band (h := solidHeader number) rfl hfull
  obtain ⟨-, hopened, hcan, -⟩ := onBand_frame s.1 (solidHeader number) (solidPayload c).bytes
  refine ⟨_, ?_, hroomy, hpage, hopened, hcan, hmax⟩
  rw [← hout]
  exact congrArg (Prod.mk _) (if_pos hdecoded)

theorem twoPages_uniform (pos : Nat) : ∀ ev ∈ Record.events pos twoPages, UniformBand 8 ev := by
  intro ev hev
  simp only [twoPages, Record.events, Record.event, solidBand, solidHeader, List.mem_cons,
    List.not_mem_nil, or_false] at hev
  rcases hev with rfl | rfl | rfl | rfl | rfl | rfl
  · trivial
  · exact ⟨rfl, rfl⟩
  · trivial
  · trivial
  · exact ⟨rfl, rfl⟩
  · trivial

/-- When only the file of the first page cannot be opened, its band is on the
bitmap of the second. -/
theorem twoPages_mixed {s : LoggedCtx} (hs : Roomy s.1)
    (hclosed : s.1.canOpen s.1.opened = false) (hopen : s.1.canOpen (s.1.opened + 1) = true)
    (pos : Nat) : ¬Run.Every loggedStep (PagesApart 8) s (Record.events pos twoPages) := by
  rintro ⟨-, -, -, -, -, hlast, -⟩
  change PagesApart 8 (loggedStep (loggedStep (loggedStep (loggedStep (loggedStep s
    (.page _ plainPage)) (.band _ (solidHeader 0) (solidPayload 0).bytes)) (.endPage _ 1))
    (.page _ plainPage)) (.band _ (solidHeader 1) (solidPayload 0).bytes)) (.endPage _ 1) at hlast
  have hroomy {d : DecodeCtx} (hd : Roomy d) : Roomy (onPage d) :=
    ⟨hd.pbm, hd.succeeds, by simp [onPage], hd.page⟩
  obtain ⟨d, hband, hd, hpage, hopened, hcan, hmax⟩ :=
    solidBand_step (s := loggedStep s (.page pos plainPage)) (hroomy hs)
      (pos + (Record.page plainPage).bytes.length) 0 0
  have hmax0 : d.maxBand = 0 := hmax
  rw [hband, endPage_closed hpage hmax0.ge (by rw [hopened, hcan]; exact hclosed)] at hlast
  obtain ⟨d', hband', -, hpage', hopened', hcan', hmax'⟩ :=
    solidBand_step (s := loggedStep ({ d with opened := d.opened + 1, errors := d.errors + 1 },
      (loggedStep s (.page pos plainPage)).2.decode 0 (List.replicate 128 0)) (.page _ plainPage))
      (hroomy ⟨hd.pbm, hd.succeeds, hd.maxBand_le, hd.page⟩) _ 1 0
  have hmax1 : d'.maxBand = 1 := hmax'
  rw [hband'] at hlast
  have hwrites : WritesPage d' := by
    refine ⟨hpage', by rw [hmax1]; decide, ?_⟩
    rw [hcan', hopened']
    show d.canOpen (d.opened + 1) = true
    rw [hcan, hopened]
    exact hopen
  -- band 0 of the first page is stale, and not white
  have hwhite := ((hlast hwrites).2 0 (by rw [hmax1]; decide) rfl).1
  exact absurd (hwhite _ rfl 0 (by decide)) (by decide)

theorem twoPagesJob_uniform : ∀ ev ∈ (walk twoPagesJob).events, UniformBand 8 ev := by
  rw [twoPagesJob_events]
  intro ev hev
  rcases List.mem_cons.mp hev with rfl | hev
  · trivial
  · exact twoPages_uniform 26 ev hev

/-- The files of `twoPages`, when both can be opened. -/
theorem cmdDecode_pages_iff_twoPages :
    Run.Every loggedStep (ShowsPage 8) (decodeStart (some (ascii "out")) zeroHeap (fun _ => true), {})
        (walk twoPagesJob).events ↔
      Run.Every loggedStep (PagesApart 8) (decodeStart (some (ascii "out")) zeroHeap (fun _ => true), {})
        (walk twoPagesJob).events :=
  cmdDecode_pages_iff (some (ascii "out")) zeroHeap (fun _ => true) twoPagesJob 8 twoPagesJob_uniform

/-- The job is accepted and its bands have one width, but when the first file
cannot be opened, the second does not show its page. -/
theorem twoPagesJob_mixed :
    (walk twoPagesJob).rc = OK ∧ (∀ ev ∈ (walk twoPagesJob).events, UniformBand 8 ev) ∧
      ¬Run.Every loggedStep (ShowsPage 8)
        (decodeStart (some (ascii "out")) zeroHeap (fun n => decide (n ≠ 0)), {})
        (walk twoPagesJob).events := by
  refine ⟨by rw [twoPagesJob, walk_enterLine], twoPagesJob_uniform, ?_⟩
  rw [run_showsPage_iff 8 _ _ _ twoPagesJob_uniform, twoPagesJob_events]
  rintro ⟨-, hpages⟩
  have hroomy : Roomy (decodeStart (some (ascii "out")) zeroHeap fun n => decide (n ≠ 0)) :=
    ⟨rfl, zeroHeap_succeeds, by decide, fun h => absurd rfl h⟩
  exact twoPages_mixed (s := (decodeStart _ _ fun n => decide (n ≠ 0), {})) hroomy rfl rfl 26 hpages

end Airbridge.Cli
