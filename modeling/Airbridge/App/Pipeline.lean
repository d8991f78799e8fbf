import Airbridge.App.Session
import Airbridge.Qpdl.Bitmap

/-!
# A page through the pipeline

PAPPL hands the lines of a raster over in order.  The bytes the page leaves on
the device draw the crop window of the raster, its grays mapped to ink and
halftoned by a fresh halftoner, and nothing else (`print_page`).
-/

namespace Airbridge.App

open Airbridge.Qpdl Airbridge.Halftone Airbridge.Raster Memory

/-! ## PAPPL's side -/

/-- The lines of a page from `y` on, until one is refused. -/
def printLines (j : JobT) : Nat → List Bytes → Bool × JobT
  | _, [] => (true, j)
  | y, line :: lines =>
    let r := cbRwriteline j y line
    if !r.1 then r else printLines r.2 (y + 1) lines

/-- A page with all of its lines. -/
def printPage (j : JobT) (options : PrOptions) (lines : List Bytes) : Bool × JobT :=
  let r := cbRstartpage j options
  if !r.1 then r
  else
    let r := printLines r.2 0 lines
    if !r.1 then r else cbRendpage r.2

/-! ## What the page should be -/

/-- The rows a halftoner makes of lines of ink, counted from `y`. -/
def halftoneRows (ht : Halftoner) : Nat → List Bytes → List Bytes
  | _, [] => []
  | y, ink :: inks =>
    let r := halftoneLine ht ink y (List.replicate ((ht.width + 7) / 8) 0)
    r.2 :: halftoneRows r.1 (y + 1) inks

theorem length_halftoneRows (ht : Halftoner) (y : Nat) (inks : List Bytes) :
    (halftoneRows ht y inks).length = inks.length := by
  induction inks generalizing ht y with
  | nil => rfl
  | cons ink inks ih =>
    unfold halftoneRows
    rw [List.length_cons, ih, List.length_cons]

/-- The ink of the crop window: `lut[gray(x0 + x, y0 + y)]`, with the grays that
the client's bytes mean. -/
def windowInks (host : Host) (fmt : PixelFormat) (lut : ToneLut) (g : JobmapGeometry)
    (lines : List Bytes) : List Bytes :=
  (List.range g.height).map fun y => (List.range g.width).map fun x =>
    lut.entries.getD (pixelGray host.srgbGray fmt (lines.getD (g.y0 + y) []) (g.x0 + x)).toNat 0

/-! ## The lines of the crop window -/

/-- The lines that `g` covers, of those from `y` on. -/
def windowLines (g : JobmapGeometry) : Nat → List Bytes → List Bytes
  | _, [] => []
  | y, line :: lines =>
    if g.covers y then line :: windowLines g (y + 1) lines else windowLines g (y + 1) lines

theorem windowLines_eq (g : JobmapGeometry) (y : Nat) (lines : List Bytes) :
    windowLines g y lines =
      (lines.drop (g.y0 - y)).take (g.y0 + g.height - (g.y0 - y) - y) := by
  induction lines generalizing y with
  | nil => simp [windowLines]
  | cons line lines ih =>
    unfold windowLines JobmapGeometry.covers
    rw [ih]
    rcases Nat.lt_or_ge y g.y0 with hbefore | hinside
    · -- a line above the window
      have hno : (decide (g.y0 ≤ y) && decide (y < g.y0 + g.height)) = false := by
        rw [decide_eq_false (by omega), Bool.false_and]
      rw [hno, if_neg (by decide), show g.y0 - y = g.y0 - (y + 1) + 1 by omega, List.drop_succ_cons]
      congr 1
      omega
    · rw [show g.y0 - y = 0 by omega, show g.y0 - (y + 1) = 0 by omega, List.drop_zero,
        List.drop_zero, Nat.sub_zero, decide_eq_true hinside, Bool.true_and]
      rcases Nat.lt_or_ge y (g.y0 + g.height) with hlt | hge
      · rw [decide_eq_true hlt, if_pos rfl,
          show g.y0 + g.height - y = g.y0 + g.height - (y + 1) + 1 by omega, List.take_succ_cons]
      · rw [decide_eq_false (by omega), if_neg (by decide),
          show g.y0 + g.height - y = 0 by omega, show g.y0 + g.height - (y + 1) = 0 by omega,
          List.take_zero, List.take_zero]

/-- Of all lines of a raster, the crop window takes its own. -/
theorem windowLines_all {g : JobmapGeometry} {lines : List Bytes}
    (hfit : g.y0 + g.height ≤ lines.length) :
    windowLines g 0 lines = (List.range g.height).map fun y => lines.getD (g.y0 + y) [] := by
  rw [windowLines_eq]
  apply List.ext_getElem
  · rw [List.length_take, List.length_drop, List.length_map, List.length_range]
    omega
  · intro i hi _
    have hlt : i < g.height := by
      rw [List.length_take] at hi
      omega
    rw [List.getElem_take, List.getElem_drop, List.getElem_map, List.getElem_range,
      List.getD_eq_getElem _ _ (by omega)]
    rfl

theorem length_windowInks (host : Host) (fmt : PixelFormat) (lut : ToneLut) (g : JobmapGeometry)
    (lines : List Bytes) : (windowInks host fmt lut g lines).length = g.height := by
  rw [windowInks, List.length_map, List.length_range]

/-- The ink of the lines of the window. -/
theorem map_inkLine_window {j : JobT} {lines : List Bytes}
    (hfit : j.geo.y0 + j.geo.height ≤ lines.length) :
    (windowLines j.geo 0 lines).map (inkLine j) =
      windowInks j.host j.fmt j.lut j.geo lines := by
  rw [windowLines_all hfit, List.map_map]
  rfl

/-! ## The callbacks of a page -/

variable {m : Media} {job : QpdlJob} {out base : Bytes} {rows : List Bytes} {j : JobT}

/-- Lines in order become the rows of the halftoner, wherever the page stands. -/
theorem printLines_rows (h : OnPage m job base rows j) (y : Nat) (lines : List Bytes)
    (hle : rows.length + (windowLines j.geo y lines).length ≤ 256 * 128) :
    ∃ j', printLines j y lines = (true, j') ∧ j'.geo = j.geo ∧
      OnPage m job base (rows ++ halftoneRows j.ht (y - j.geo.y0)
        ((windowLines j.geo y lines).map (inkLine j))) j' := by
  induction lines generalizing rows j y with
  | nil => exact ⟨j, rfl, rfl, by simpa [windowLines, halftoneRows] using h⟩
  | cons line lines ih =>
    unfold printLines
    cases hy : j.geo.covers y with
    | false =>
      have hskip : windowLines j.geo y (line :: lines) = windowLines j.geo (y + 1) lines := by
        show (if j.geo.covers y then _ else _) = _
        rw [if_neg (by rw [hy]; decide)]
      rw [hskip] at hle ⊢
      obtain ⟨j', hprint, hgeo, hon⟩ := ih h (y + 1) hle
      refine ⟨j', ?_, hgeo, ?_⟩
      · rw [writeline_margin h hy]
        exact hprint
      · -- above the window both counts are 0; below it there are no lines left
        rcases Nat.lt_or_ge y j.geo.y0 with hbefore | hinside
        · rw [show y - j.geo.y0 = y + 1 - j.geo.y0 by omega]
          exact hon
        · have hbelow : j.geo.y0 + j.geo.height ≤ y := by
            unfold JobmapGeometry.covers at hy
            rw [decide_eq_true hinside, Bool.true_and, decide_eq_false_iff_not] at hy
            omega
          have hnone : windowLines j.geo (y + 1) lines = [] := by
            rw [windowLines_eq, show j.geo.y0 + j.geo.height - (j.geo.y0 - (y + 1)) - (y + 1) = 0 by
              omega, List.take_zero]
          rw [hnone] at hon ⊢
          exact hon
    | true =>
      have htake : windowLines j.geo y (line :: lines) =
          line :: windowLines j.geo (y + 1) lines := by
        show (if j.geo.covers y then _ else _) = _
        rw [if_pos hy]
      rw [htake] at hle ⊢
      rw [List.length_cons] at hle
      obtain ⟨j1, hwrite, hon, hht, hsame⟩ := writeline_row h hy (by omega) line
      rw [← hsame.geo_eq] at hle
      obtain ⟨j', hprint, hgeo, hon'⟩ := ih hon (y + 1) (by
        rw [List.length_append, List.length_singleton]
        omega)
      refine ⟨j', ?_, hgeo.trans hsame.geo_eq, ?_⟩
      · rw [hwrite]
        exact hprint
      · have hinside : j.geo.y0 ≤ y := by
          unfold JobmapGeometry.covers at hy
          exact of_decide_eq_true (Bool.and_eq_true_iff.mp hy).1
        have hink : inkLine j1 = inkLine j := funext hsame.inkLine_eq
        rw [hink, hht, hsame.geo_eq, show y + 1 - j.geo.y0 = y - j.geo.y0 + 1 by omega,
          List.append_assoc] at hon'
        rw [List.map_cons]
        unfold halftoneRows
        rw [h.ht.width_eq]
        exact hon'

/-- A page between two others: all of its callbacks succeed, and its bytes are
those of the halftoned crop window. -/
theorem printPage_between (h : BetweenPages m job out j) (hm : m ∈ mediaTable)
    {options : PrOptions} {fmt : PixelFormat} (hfmt : options.header.pixelFormat = some fmt)
    (hres : options.header.hwResolution = (600, 600)) (hw : 0 < options.header.cupsWidth)
    (hh : 0 < options.header.cupsHeight) {lines : List Bytes}
    (hlines : lines.length = options.header.cupsHeight) :
    let g := (jobmapGeometry (some m) 600 options.header.cupsWidth options.header.cupsHeight).2
    ∃ p : Page, p.width = g.width ∧
      p.rows = halftoneRows (freshHalftoner j.hp g.width) 0
        (windowInks j.host fmt j.lut g lines) ∧
      (printPage j options lines).1 = true ∧
      BetweenPages m job (out ++ pageBytes job p.width p.bits) (printPage j options lines).2 := by
  intro g
  obtain ⟨hok, -⟩ := preparePage_ready h.blocks h.media_eq hm hfmt hres hw hh
  obtain ⟨p, e, hready, hstart, hon⟩ := startpage_started h hm hok
  have hin := hready.inRaster
  rw [hready.geo_eq] at hin
  obtain ⟨-, -, -, hheight⟩ := imageable_bounds m hm
  let j1 : JobT := { p with enc := e, pageOpen := true }
  have hgeo : j1.geo = g := hready.geo_eq
  have hinks : (windowLines j1.geo 0 lines).map (inkLine j1) =
      windowInks j.host fmt j.lut g lines := by
    have hfmt1 : j1.fmt = fmt := Option.some.inj (hready.fmt_eq.symm.trans hfmt)
    have hhost : j1.host = j.host := hready.host_eq
    have hlut : j1.lut = j.lut := hready.lut_eq
    rw [map_inkLine_window (by rw [hgeo, hlines]; exact hin.bottom_le), hgeo, hfmt1, hhost, hlut]
  obtain ⟨j2, hprint, hgeo2, hon2⟩ := printLines_rows hon 0 lines (by
    have hlen := congrArg List.length hinks
    rw [List.length_map, length_windowInks] at hlen
    show 0 + (windowLines j1.geo 0 lines).length ≤ _
    rw [hlen, Nat.zero_add]
    exact hin.height_le.trans hheight)
  have hht : j1.ht = freshHalftoner j.hp g.width := by
    show p.ht = _
    rw [hready.ht_eq, hready.hp_eq, hready.geo_eq]
  have hrows : [] ++ halftoneRows j1.ht (0 - j1.geo.y0) ((windowLines j1.geo 0 lines).map
      (inkLine j1)) = halftoneRows (freshHalftoner j.hp g.width) 0
        (windowInks j.host fmt j.lut g lines) := by
    rw [List.nil_append, hinks, hht, Nat.zero_sub]
  have hon3 : OnPage m job out (halftoneRows (freshHalftoner j.hp g.width) 0
      (windowInks j.host fmt j.lut g lines)) j2 := by
    rw [← hrows]
    exact hon2
  have hle : (halftoneRows (freshHalftoner j.hp g.width) 0
      (windowInks j.host fmt j.lut g lines)).length ≤ 256 * 128 := by
    rw [length_halftoneRows, length_windowInks]
    exact hin.height_le.trans hheight
  obtain ⟨j3, hend, hbetween⟩ := endpage_between hon3 hle
  have hpage : printPage j options lines = (true, j3) := by
    unfold printPage
    rw [hstart]
    show (if !(printLines j1 0 lines).1 then _ else _) = _
    rw [hprint]
    exact hend
  rw [hpage]
  exact ⟨hon3.page hle, congrArg JobmapGeometry.width (hgeo2.trans hgeo), rfl, rfl, hbetween⟩

/-! ## The settings of a job -/

/-- What `cb_rstartjob` sets for all pages of a job. -/
structure Settings (host : Host) (options : PrOptions) (j : JobT) : Prop where
  host_eq : j.host = host
  hp_eq : j.hp = preset
    (jobmapPreset options.printQuality (contentFrom options.printContentOptimize))
  lut_eq : j.lut = host.toneBuild
    (jobmapPreset options.printQuality (contentFrom options.printContentOptimize))

theorem startjob_settings {host : Host} {heap : Heap UInt8} {options : PrOptions} {device : Sink}
    (hstart : (cbRstartjob host heap options device).1 = true) :
    Settings host options (cbRstartjob host heap options device).2 := by
  unfold cbRstartjob at hstart ⊢
  dsimp only at hstart ⊢
  split at hstart
  · exact absurd (show false = true from hstart) (by decide)
  · rename_i m hmedia
    split_ifs at hstart ⊢
    exact ⟨rfl, rfl, rfl⟩

theorem step_settings {host : Host} {options : PrOptions} (s : Session) (c : Callback)
    (h : Settings host options s.job) : Settings host options (s.step c).job := by
  cases c with
  | startPage pageOptions =>
    have hsame := preparePage_sameJob s.job pageOptions.header
    have hprepare : Settings host options (preparePage s.job pageOptions.header).2 :=
      ⟨hsame.host_eq.trans h.host_eq, hsame.hp_eq.trans h.hp_eq, hsame.lut_eq.trans h.lut_eq⟩
    unfold Session.step cbRstartpage
    dsimp only
    split_ifs
    · exact h
    · exact hprepare
    · exact ⟨hprepare.host_eq, hprepare.hp_eq, hprepare.lut_eq⟩
    · exact ⟨hprepare.host_eq, hprepare.hp_eq, hprepare.lut_eq⟩
  | writeLine y line =>
    unfold Session.step cbRwriteline
    dsimp only
    split_ifs <;> exact ⟨h.host_eq, h.hp_eq, h.lut_eq⟩
  | endPage =>
    unfold Session.step cbRendpage
    dsimp only
    split_ifs <;> exact ⟨h.host_eq, h.hp_eq, h.lut_eq⟩

/-! ## The page on paper -/

/-- Wherever a page stands in a job, when its raster is handed over line by
line, the crop window lies in the raster and in the imageable area, no
callback fails, and the page on paper is the window's ink, halftoned from a
fresh halftoner, with white around it. -/
theorem print_page (host : Host) (heap : Heap UInt8) (options : PrOptions) (device : Sink)
    (calls : List Callback) (m : Media) (pageOptions : PrOptions) (fmt : PixelFormat)
    (lines : List Bytes) (hstart : (cbRstartjob host heap options device).1 = true)
    (hheap : heap.Succeeds) (hdevice : ∀ n, device.answer n = 0)
    (hcalls : Run.Every Session.step (fun s c => InOrder s c ∧ WithinBands s c)
      (Session.start host heap options device) calls)
    (hbetween : (Run.run Session.step (Session.start host heap options device) calls).inPage = false)
    (hmedia : mediaByPwg options.mediaSizeName = some m)
    (hfmt : pageOptions.header.pixelFormat = some fmt)
    (hres : pageOptions.header.hwResolution = (600, 600)) (hw : 0 < pageOptions.header.cupsWidth)
    (hh : 0 < pageOptions.header.cupsHeight)
    (hlines : lines.length = pageOptions.header.cupsHeight) :
    let header := pageOptions.header
    let j := (Run.run Session.step (Session.start host heap options device) calls).job
    let g := (jobmapGeometry (some m) 600 header.cupsWidth header.cupsHeight).2
    let p := jobmapPreset options.printQuality (contentFrom options.printContentOptimize)
    let rows := halftoneRows (freshHalftoner (preset p) g.width) 0
      (windowInks host fmt (host.toneBuild p) g lines)
    let r := printPage j pageOptions lines
    InRaster m header.cupsWidth header.cupsHeight g ∧ r.1 = true ∧
      ∀ y x, bitmapOf (bandsOf (r.2.enc.sink.accepted.drop j.enc.sink.accepted.length)) y x =
        if x < g.width ∧ y < g.height then Bits.get (rows.getD y []) x else false := by
  intro header j g p rows r
  obtain ⟨m', hmedia', -, hstreamed⟩ := run_streamed hstart hheap hdevice hcalls
  obtain rfl : m' = m := Option.some.inj (hmedia'.symm.trans hmedia)
  have hm := mem_mediaTable hmedia
  have hsettings : Settings host options j :=
    Run.run_invariant (fun s c (h : Settings host options s.job) => step_settings s c h)
      (startjob_settings hstart) calls
  obtain ⟨pages, ⟨-, -, hpages⟩ | ⟨hopen, -⟩⟩ := hstreamed
  · obtain ⟨page, hwidth, hrows, hok, hnext⟩ :=
      printPage_between hpages hm hfmt hres hw hh hlines
    refine ⟨(jobmapGeometry_inRaster hm hw hh).2, hok, fun y x => ?_⟩
    have hbytes : r.2.enc.sink.accepted.drop j.enc.sink.accepted.length =
        pageBytes (qpdlJob host m' options) page.width page.bits := by
      rw [hnext.idle.accepted, hpages.idle.accepted, List.drop_left]
    have hrows' : page.rows = rows := by
      rw [hrows, hsettings.host_eq, hsettings.hp_eq, hsettings.lut_eq]
    have hlen : rows.length = g.height := by
      show (halftoneRows _ _ _).length = _
      rw [length_halftoneRows, length_windowInks]
    rw [hbytes, bitmapOf_pageBytes, Page.pixel, hwidth, hrows']
    by_cases hx : x < g.width
    · by_cases hy : y < g.height
      · rw [decide_eq_true hx, if_pos ⟨hx, hy⟩, Bool.true_and]
      · rw [if_neg (fun hboth => hy hboth.2), List.getD_eq_default _ _ (by omega),
          Bits.get_of_le (Nat.zero_le _), Bool.and_false]
    · rw [decide_eq_false hx, if_neg (fun hboth => hx hboth.1), Bool.false_and]
  · exact absurd (hbetween.symm.trans hopen) (by decide)

/-- The first page of the sample job: eight gray pixels in one line. -/
theorem print_page_sample :
    let header := sampleOptions.header
    let j := (Run.run Session.step (Session.start sampleHost zeroHeap sampleOptions .accepting)
      []).job
    let m : Media := ⟨ascii "iso_a4_210x297mm", 0x02, 595, 842, 1250, 1250, 58250, 82950⟩
    let g := (jobmapGeometry (some m) 600 header.cupsWidth header.cupsHeight).2
    let p := jobmapPreset sampleOptions.printQuality
      (contentFrom sampleOptions.printContentOptimize)
    let rows := halftoneRows (freshHalftoner (preset p) g.width) 0
      (windowInks sampleHost .sgray8 (sampleHost.toneBuild p) g [List.replicate 8 0])
    let r := printPage j sampleOptions [List.replicate 8 0]
    InRaster m header.cupsWidth header.cupsHeight g ∧ r.1 = true ∧
      ∀ y x, bitmapOf (bandsOf (r.2.enc.sink.accepted.drop j.enc.sink.accepted.length)) y x =
        if x < g.width ∧ y < g.height then Bits.get (rows.getD y []) x else false :=
  print_page sampleHost zeroHeap sampleOptions .accepting [] _ sampleOptions .sgray8
    [List.replicate 8 0] (startjob_sample fun _ => rfl) zeroHeap_succeeds (fun _ => rfl) trivial rfl
    (by decide) rfl rfl (by decide) (by decide) rfl

end Airbridge.App
