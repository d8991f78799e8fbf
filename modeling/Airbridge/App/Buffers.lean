import Airbridge.App.Job

/-!
# The memory of a page

The blocks `page_buffers` keeps from page to page, and what a line does in
them.  When allocations succeed, every page gets blocks of the sizes of its
lines and a fresh halftoner, whatever earlier pages left behind; a line that
goes through them ends up as the packed bits of its cropped ink.
-/

namespace Airbridge.App

open Airbridge.Qpdl Airbridge.Halftone Airbridge.Raster Memory

/-! ## Blocks of the right sizes -/

/-- The blocks hold lines of these widths: none is null. -/
structure JobT.Fits (j : JobT) (rasterWidth width : Nat) : Prop where
  grayFull : j.grayFull.map List.length = some rasterWidth
  gray : j.gray.map List.length = some width
  ink : j.ink.map List.length = some width
  bits : j.bits.map List.length = some ((width + 7) / 8)
  htState : j.htState.map List.length = some (2 * (width + 2))
  workspace : ∃ block, j.workspace = some block ∧ qpdlEncoderWorkspaceBytes width ≤ block.length

/-- The blocks of a job: none yet, or of the sizes that are written down. -/
structure JobT.Blocks (j : JobT) : Prop where
  succeeds : j.heap.Succeeds
  fits : j.allocRasterWidth = 0 ∨ j.Fits j.allocRasterWidth j.allocWidth

/-- The blocks are those of the page in `rasterWidth` and `geo`. -/
structure JobT.PageFits (j : JobT) : Prop extends j.Fits j.rasterWidth j.geo.width where
  succeeds : j.heap.Succeeds
  allocRasterWidth_eq : j.allocRasterWidth = j.rasterWidth
  allocWidth_eq : j.allocWidth = j.geo.width

theorem JobT.PageFits.blocks {j : JobT} (h : j.PageFits) : j.Blocks := by
  refine ⟨h.succeeds, .inr ?_⟩
  rw [h.allocRasterWidth_eq, h.allocWidth_eq]
  exact h.toFits

/-- The memory of a job: its allocator, the blocks and their sizes. -/
def JobT.memory (j : JobT) : Heap UInt8 × Option Bytes × Option Bytes × Option Bytes ×
    Option Bytes × Option (List Int) × Option Bytes × Nat × Nat :=
  (j.heap, j.grayFull, j.gray, j.ink, j.bits, j.htState, j.workspace, j.allocRasterWidth,
    j.allocWidth)

theorem JobT.Fits.congr {j j' : JobT} {rasterWidth width : Nat} (h : j.Fits rasterWidth width)
    (hmem : j'.memory = j.memory) : j'.Fits rasterWidth width := by
  simp only [JobT.memory, Prod.mk.injEq] at hmem
  obtain ⟨-, h1, h2, h3, h4, h5, h6, -, -⟩ := hmem
  exact ⟨h1 ▸ h.grayFull, h2 ▸ h.gray, h3 ▸ h.ink, h4 ▸ h.bits, h5 ▸ h.htState, h6 ▸ h.workspace⟩

theorem JobT.Blocks.congr {j j' : JobT} (h : j.Blocks) (hmem : j'.memory = j.memory) :
    j'.Blocks := by
  have hfits := h.fits
  have hmem' := hmem
  simp only [JobT.memory, Prod.mk.injEq] at hmem'
  obtain ⟨hheap, -, -, -, -, -, -, hraster, hwidth⟩ := hmem'
  rw [← hraster, ← hwidth] at hfits
  exact ⟨hheap ▸ h.succeeds, hfits.imp id fun hf => hf.congr hmem⟩

/-- The sizes written down are no part of the blocks. -/
theorem JobT.Fits.sized {j : JobT} {rasterWidth width : Nat} (h : j.Fits rasterWidth width) :
    JobT.Fits { j with allocRasterWidth := rasterWidth, allocWidth := width } rasterWidth width :=
  ⟨h.grayFull, h.gray, h.ink, h.bits, h.htState, h.workspace⟩

/-! ## The allocations of a page -/

/-- The test behind the allocations. -/
def JobT.HasNull (j : JobT) : Prop :=
  j.grayFull = none ∨ j.gray = none ∨ j.ink = none ∨ j.bits = none ∨ j.htState = none ∨
    j.workspace = none

instance (j : JobT) : Decidable j.HasNull := inferInstanceAs (Decidable (_ ∨ _))

/-- The job with the blocks of the six allocations, whatever they answer. -/
def JobT.allocated (j : JobT) (rasterWidth width : Nat) : JobT :=
  let grayFull := j.heap.malloc rasterWidth
  let gray := grayFull.2.malloc width
  let ink := gray.2.malloc width
  let bits := ink.2.malloc ((width + 7) / 8)
  let htState := bits.2.malloc (halftonerStateBytes width)
  let workspace := htState.2.malloc (qpdlEncoderWorkspaceBytes width)
  { j with
    grayFull := grayFull.1
    gray := gray.1
    ink := ink.1
    bits := bits.1
    htState := htState.1.map int16Cells
    workspace := workspace.1
    heap := workspace.2 }

/-- Blocks of which none is null have the sizes asked for. -/
theorem allocated_fits {j : JobT} {rasterWidth width : Nat}
    (h : ¬(j.allocated rasterWidth width).HasNull) :
    (j.allocated rasterWidth width).Fits rasterWidth width := by
  have hblock (heap : Heap UInt8) {n : Nat} (hnull : (heap.malloc n).1 ≠ none) :
      (heap.malloc n).1.map List.length = some n := by
    obtain ⟨block, hblock⟩ := Option.ne_none_iff_exists'.mp hnull
    rw [hblock, Option.map_some, Heap.length_malloc hblock]
  simp only [JobT.HasNull, JobT.allocated, not_or] at h
  obtain ⟨hgrayFull, hgray, hink, hbits, hstate, hworkspace⟩ := h
  refine ⟨hblock _ hgrayFull, hblock _ hgray, hblock _ hink, hblock _ hbits, ?_, ?_⟩
  · obtain ⟨cells, hcells⟩ := Option.ne_none_iff_exists'.mp hstate
    obtain ⟨block, hmalloc, hmap⟩ := Option.map_eq_some_iff.mp hcells
    simp only [JobT.allocated]
    rw [hcells, Option.map_some, ← hmap, length_int16Cells, Heap.length_malloc hmalloc]
    unfold halftonerStateBytes
    congr 1
    omega
  · obtain ⟨block, hblock⟩ := Option.ne_none_iff_exists'.mp hworkspace
    exact ⟨block, hblock, (Heap.length_malloc hblock).ge⟩

/-- An allocator that never fails leaves no block out. -/
theorem allocated_not_hasNull {j : JobT} (hs : j.heap.Succeeds) (rasterWidth width : Nat) :
    ¬(j.allocated rasterWidth width).HasNull := by
  have hblock {heap : Heap UInt8} (hheap : heap.Succeeds) (n : Nat) : (heap.malloc n).1 ≠ none := by
    obtain ⟨block, hblock, -⟩ := Heap.malloc_succeeds hheap n
    rw [hblock]
    exact Option.some_ne_none block
  have hs1 := hs.malloc rasterWidth
  have hs2 := hs1.malloc width
  have hs3 := hs2.malloc width
  have hs4 := hs3.malloc ((width + 7) / 8)
  have hs5 := hs4.malloc (halftonerStateBytes width)
  have hstate := hblock hs4 (halftonerStateBytes width)
  simp only [JobT.HasNull, JobT.allocated, not_or, Option.map_eq_none_iff]
  exact ⟨hblock hs rasterWidth, hblock hs1 width, hblock hs2 width,
    hblock hs3 ((width + 7) / 8), hstate, hblock hs5 (qpdlEncoderWorkspaceBytes width)⟩

/-- The three ways a call goes: from the cache, with new blocks, or with a
block missing. -/
theorem pageBuffers_cases (j : JobT) (rasterWidth width : Nat) :
    (j.allocRasterWidth = rasterWidth ∧ j.allocWidth = width) ∧
        pageBuffers j rasterWidth width = (true, j) ∨
      ¬(j.allocRasterWidth = rasterWidth ∧ j.allocWidth = width) ∧
        ((j.allocated rasterWidth width).HasNull ∧
            pageBuffers j rasterWidth width = (false, j.allocated rasterWidth width) ∨
          ¬(j.allocated rasterWidth width).HasNull ∧
            pageBuffers j rasterWidth width = (true, { j.allocated rasterWidth width with
              allocRasterWidth := rasterWidth, allocWidth := width })) := by
  by_cases hcached : j.allocRasterWidth = rasterWidth ∧ j.allocWidth = width
  · exact .inl ⟨hcached, if_pos hcached⟩
  · have hcall : pageBuffers j rasterWidth width =
        if (j.allocated rasterWidth width).HasNull then (false, j.allocated rasterWidth width)
        else (true, { j.allocated rasterWidth width with
          allocRasterWidth := rasterWidth, allocWidth := width }) := if_neg hcached
    rw [hcall]
    by_cases hnull : (j.allocated rasterWidth width).HasNull
    · exact .inr ⟨hcached, .inl ⟨hnull, if_pos hnull⟩⟩
    · exact .inr ⟨hcached, .inr ⟨hnull, if_neg hnull⟩⟩

/-! ## The blocks of a page -/

/-- What stays the same from the start of a job to the encoder calls. -/
structure SameJob (j j' : JobT) : Prop where
  host_eq : j'.host = j.host
  media_eq : j'.media = j.media
  enc_eq : j'.enc = j.enc
  jobOpen_eq : j'.jobOpen = j.jobOpen
  pageOpen_eq : j'.pageOpen = j.pageOpen
  hp_eq : j'.hp = j.hp
  lut_eq : j'.lut = j.lut

/-- What the memory of a page leaves alone. -/
structure SamePage (j j' : JobT) : Prop extends SameJob j j' where
  geo_eq : j'.geo = j.geo
  fmt_eq : j'.fmt = j.fmt
  rasterWidth_eq : j'.rasterWidth = j.rasterWidth
  linesIn_eq : j'.linesIn = j.linesIn

theorem pageBuffers_samePage (j : JobT) (rasterWidth width : Nat) :
    SamePage j (pageBuffers j rasterWidth width).2 := by
  rcases pageBuffers_cases j rasterWidth width with ⟨-, heq⟩ | ⟨-, ⟨-, heq⟩ | ⟨-, heq⟩⟩
  all_goals
    rw [heq]
    exact ⟨⟨rfl, rfl, rfl, rfl, rfl, rfl, rfl⟩, rfl, rfl, rfl, rfl⟩

theorem pageBuffers_fits {j : JobT} (h : j.Blocks) {rasterWidth : Nat} (width : Nat)
    (hpos : 0 < rasterWidth) :
    (pageBuffers j rasterWidth width).1 = true ∧
      (pageBuffers j rasterWidth width).2.Fits rasterWidth width ∧
      (pageBuffers j rasterWidth width).2.heap.Succeeds ∧
      (pageBuffers j rasterWidth width).2.allocRasterWidth = rasterWidth ∧
      (pageBuffers j rasterWidth width).2.allocWidth = width := by
  have hnull := allocated_not_hasNull h.succeeds rasterWidth width
  rcases pageBuffers_cases j rasterWidth width with
    ⟨⟨hraster, hwidth⟩, heq⟩ | ⟨-, ⟨hnone, -⟩ | ⟨-, heq⟩⟩
  · have hfits := h.fits.resolve_left (by omega)
    rw [hraster, hwidth] at hfits
    rw [heq]
    exact ⟨rfl, hfits, h.succeeds, hraster, hwidth⟩
  · exact absurd hnone hnull
  · rw [heq]
    exact ⟨rfl, (allocated_fits hnull).sized, h.succeeds, rfl, rfl⟩

theorem pageMemory_samePage (j : JobT) : SamePage j (pageMemory j).2 := by
  have h := pageBuffers_samePage j j.rasterWidth j.geo.width
  unfold pageMemory
  dsimp only
  split_ifs
  · exact h
  · exact ⟨⟨h.host_eq, h.media_eq, h.enc_eq, h.jobOpen_eq, h.pageOpen_eq, h.hp_eq, h.lut_eq⟩,
      h.geo_eq, h.fmt_eq, h.rasterWidth_eq, h.linesIn_eq⟩

/-- A page of any size gets its blocks and a fresh halftoner. -/
theorem pageMemory_fits {j : JobT} (h : j.Blocks) (hpos : 0 < j.rasterWidth) :
    (pageMemory j).1 = true ∧ (pageMemory j).2.PageFits ∧
      (pageMemory j).2.ht = freshHalftoner j.hp j.geo.width := by
  obtain ⟨hok, hfits, hsucceeds, hraster, hwidth⟩ := pageBuffers_fits h j.geo.width hpos
  have hsame := pageBuffers_samePage j j.rasterWidth j.geo.width
  obtain ⟨cells, hcells, hlen⟩ := Option.map_eq_some_iff.mp hfits.htState
  have hinit : halftonerInit (pageBuffers j j.rasterWidth j.geo.width).2.hp
      (pageBuffers j j.rasterWidth j.geo.width).2.geo.width
      (pageBuffers j j.rasterWidth j.geo.width).2.htState =
        (0, freshHalftoner j.hp j.geo.width) := by
    rw [hcells, hsame.hp_eq, hsame.geo_eq, halftonerInit_fresh _ hlen]
  have hpage := pageMemory_samePage j
  have hmem : (pageMemory j).2.memory = (pageBuffers j j.rasterWidth j.geo.width).2.memory ∧
      (pageMemory j).1 = true ∧ (pageMemory j).2.ht = freshHalftoner j.hp j.geo.width := by
    unfold pageMemory
    dsimp only
    rw [hok, hinit]
    exact ⟨rfl, rfl, rfl⟩
  refine ⟨hmem.2.1, ?_, hmem.2.2⟩
  have hblocks := hmem.1
  simp only [JobT.memory, Prod.mk.injEq] at hblocks
  obtain ⟨hheap, -, -, -, -, -, -, halloc, hallocWidth⟩ := hblocks
  refine ⟨?_, hheap ▸ hsucceeds, ?_, ?_⟩
  · rw [hpage.rasterWidth_eq, hpage.geo_eq]
    exact hfits.congr hmem.1
  · rw [halloc, hraster, hpage.rasterWidth_eq]
  · rw [hallocWidth, hwidth, hpage.geo_eq]

/-! ## A page that is started -/

/-- The job in front of the encoder call that begins a page of `media`. -/
structure Ready (m : Media) (h : CupsHeader) (j j' : JobT) : Prop extends SameJob j j' where
  geo_eq : j'.geo = (jobmapGeometry (some m) 600 h.cupsWidth h.cupsHeight).2
  inRaster : InRaster m h.cupsWidth h.cupsHeight j'.geo
  rasterWidth_eq : j'.rasterWidth = h.cupsWidth
  fmt_eq : h.pixelFormat = some j'.fmt
  linesIn_eq : j'.linesIn = 0
  pageFits : j'.PageFits
  ht_eq : j'.ht = freshHalftoner j'.hp j'.geo.width

theorem preparePage_sameJob (j : JobT) (h : CupsHeader) : SameJob j (preparePage j h).2 := by
  unfold preparePage
  dsimp only
  split
  · exact ⟨rfl, rfl, rfl, rfl, rfl, rfl, rfl⟩
  · rename_i fmt _
    split_ifs
    · exact ⟨rfl, rfl, rfl, rfl, rfl, rfl, rfl⟩
    · exact ⟨rfl, rfl, rfl, rfl, rfl, rfl, rfl⟩
    · have hm := (pageMemory_samePage { j with
        linesIn := 0
        rasterWidth := h.cupsWidth
        fmt := fmt
        geo := (jobmapGeometry j.media 600 h.cupsWidth h.cupsHeight).2 }).toSameJob
      exact ⟨hm.host_eq, hm.media_eq, hm.enc_eq, hm.jobOpen_eq, hm.pageOpen_eq, hm.hp_eq, hm.lut_eq⟩

/-- A page gets to the encoder when its raster has a known format, the
resolution of the engine and at least one pixel. -/
theorem preparePage_ready {j : JobT} {m : Media} (hblocks : j.Blocks) (hmedia : j.media = some m)
    (hm : m ∈ mediaTable) {h : CupsHeader} {fmt : PixelFormat} (hfmt : h.pixelFormat = some fmt)
    (hres : h.hwResolution = (600, 600)) (hw : 0 < h.cupsWidth) (hh : 0 < h.cupsHeight) :
    (preparePage j h).1 = true ∧ Ready m h j (preparePage j h).2 := by
  obtain ⟨hgeo, hin⟩ := jobmapGeometry_inRaster hm hw hh
  have hsame := preparePage_sameJob j h
  let j1 := { j with
    linesIn := 0
    rasterWidth := h.cupsWidth
    fmt := fmt
    geo := (jobmapGeometry j.media 600 h.cupsWidth h.cupsHeight).2 }
  have hg : (jobmapGeometry j.media 600 h.cupsWidth h.cupsHeight).1 = true := by
    rw [hmedia]
    exact hgeo
  have hprepare : preparePage j h = pageMemory j1 := by
    unfold preparePage
    rw [hfmt]
    dsimp only
    rw [if_neg (not_not.mpr hres), hg]
    rfl
  have hblocks1 : j1.Blocks := hblocks.congr rfl
  obtain ⟨hok, hfits, hht⟩ := pageMemory_fits hblocks1 hw
  have hpage := pageMemory_samePage j1
  have hgeo1 : (pageMemory j1).2.geo =
      (jobmapGeometry (some m) 600 h.cupsWidth h.cupsHeight).2 := by
    rw [hpage.geo_eq, ← hmedia]
  rw [hprepare] at hsame ⊢
  refine ⟨hok, hsame, hgeo1, ?_, hpage.rasterWidth_eq, ?_, hpage.linesIn_eq, hfits, ?_⟩
  · rw [hgeo1]
    exact hin
  · rw [hpage.fmt_eq, hfmt]
  · rw [hht, hpage.hp_eq, hpage.geo_eq]

/-- A page that does not get to the encoder leaves the memory alone. -/
theorem preparePage_refused {j : JobT} (hblocks : j.Blocks) {h : CupsHeader}
    (hno : (preparePage j h).1 = false) : (preparePage j h).2.memory = j.memory := by
  unfold preparePage at hno ⊢
  cases hfmt : h.pixelFormat with
  | none => rfl
  | some fmt =>
    rw [hfmt] at hno
    dsimp only at hno ⊢
    split_ifs at hno ⊢ with hres hgeo
    · rfl
    · rfl
    · exfalso
      have hpos : 0 < h.cupsWidth := by
        by_contra hzero
        exact hgeo (by rw [jobmapGeometry_empty j.media (.inl (by omega))]; rfl)
      obtain ⟨hok, -⟩ := pageMemory_fits (j := { j with
        linesIn := 0
        rasterWidth := h.cupsWidth
        fmt := fmt
        geo := (jobmapGeometry j.media 600 h.cupsWidth h.cupsHeight).2 })
        (hblocks.congr rfl) hpos
      rw [hok] at hno
      exact absurd hno (by decide)

/-- A page that gets to the encoder is of that kind. -/
theorem of_preparePage {j : JobT} {h : CupsHeader} (hok : (preparePage j h).1 = true) :
    (∃ fmt, h.pixelFormat = some fmt) ∧ h.hwResolution = (600, 600) ∧
      0 < h.cupsWidth ∧ 0 < h.cupsHeight := by
  unfold preparePage at hok
  dsimp only at hok
  split at hok
  · exact absurd (show false = true from hok) (by decide)
  · rename_i fmt hfmt
    split_ifs at hok with hres hgeo
    rw [not_not] at hres
    refine ⟨⟨fmt, hfmt⟩, hres, ?_⟩
    by_contra hempty
    have hnot : h.cupsWidth = 0 ∨ h.cupsHeight = 0 := by omega
    rw [jobmapGeometry_empty j.media hnot] at hgeo
    exact hgeo rfl

/-! ## A line through the buffers -/

/-- The ink of a cropped line. -/
def inkLine (j : JobT) (line : Bytes) : Bytes :=
  (List.range j.geo.width).map fun x =>
    j.lut.ink (pixelGray j.host.srgbGray j.fmt line (j.geo.x0 + x))

theorem convertLine_samePage (j : JobT) (y : Nat) (line : Bytes) :
    SamePage j (convertLine j y line) :=
  ⟨⟨rfl, rfl, rfl, rfl, rfl, rfl, rfl⟩, rfl, rfl, rfl, rfl⟩

/-- In blocks of the right sizes, a line becomes the bits of its ink. -/
theorem convertLine_fits {j : JobT} (h : j.Fits j.rasterWidth j.geo.width)
    (hx : j.geo.x0 + j.geo.width ≤ j.rasterWidth) (hht : j.ht.Fits j.geo.width) (y : Nat)
    (line : Bytes) :
    let r := halftoneLine j.ht (inkLine j line) (y - j.geo.y0)
      (List.replicate ((j.geo.width + 7) / 8) 0)
    (convertLine j y line).bits = some r.2 ∧ (convertLine j y line).ht = r.1 ∧
      (convertLine j y line).Fits j.rasterWidth j.geo.width := by
  obtain ⟨grayFull, hgrayFull, hlenFull⟩ := Option.map_eq_some_iff.mp h.grayFull
  obtain ⟨gray, hgray, hlenGray⟩ := Option.map_eq_some_iff.mp h.gray
  obtain ⟨ink, hink, hlenInk⟩ := Option.map_eq_some_iff.mp h.ink
  obtain ⟨bits, hbits, hlenBits⟩ := Option.map_eq_some_iff.mp h.bits
  have htone := toneApply_fitLine j.host.srgbGray j.fmt j.lut line hx hlenFull hlenGray hlenInk
  have hline : halftoneLine j.ht (toneApply j.lut (rasterFitLine (rasterLineToGray j.host.srgbGray
      j.fmt line j.rasterWidth (j.grayFull.getD [])) j.rasterWidth j.geo.x0 (j.gray.getD [])
        j.geo.width 255) j.geo.width (j.ink.getD [])) (y - j.geo.y0) (j.bits.getD []) =
      halftoneLine j.ht (inkLine j line) (y - j.geo.y0)
        (List.replicate ((j.geo.width + 7) / 8) 0) := by
    rw [hgrayFull, hgray, hink, hbits]
    simp only [Option.getD_some]
    rw [htone, halftoneLine_bits _ _ _ (by rw [hlenBits, hht.width_eq]), hht.width_eq]
    rfl
  obtain ⟨hlen, -⟩ := length_halftoneLine j.ht (inkLine j line) (y - j.geo.y0)
    (List.replicate ((j.geo.width + 7) / 8) 0)
  have hfits := halftoneLine_fits hht (inkLine j line) (y - j.geo.y0)
    (List.replicate ((j.geo.width + 7) / 8) 0)
  intro r
  refine ⟨congrArg (fun s : Halftoner × Bytes => some s.2) hline, congrArg Prod.fst hline, ?_⟩
  unfold convertLine
  dsimp only
  rw [hline]
  refine ⟨?_, ?_, ?_, ?_, ?_, h.workspace⟩
  · simp [hgrayFull, hlenFull]
  · simp [hgray, hlenGray]
  · simp [hink, hlenInk]
  · simp [hlen]
  · dsimp only
    split_ifs with herr
    · rw [Option.map_some, hfits.length_state herr]
    · exact h.htState

end Airbridge.App
