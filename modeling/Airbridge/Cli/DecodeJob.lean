import Airbridge.Cli.Pages
import Airbridge.Qpdl.Canonical

/-!
# Decoding an encoded job

The decode command over what the job encoder wrote: each page that is not
white becomes a file, and the file shows the page (`cmdDecode_jobBytes`).

Between two pages the context is `Clean`: its bitmap is white and its buffers
have the size it remembers.  The width may change from page to page.
-/

namespace Airbridge.Cli

open Airbridge.Qpdl Memory

/-! ## The bands of a page -/

/-- The width of the bands of a page. -/
def paddedWidth (p : Page) : UInt16 := UInt16.ofNat ((p.width + 255) / 256 * 256)

theorem rowBytes_paddedWidth (p : Page) : (paddedWidth p).toNat / 8 = rowBytes p.width := by
  have hle := p.width_le
  unfold paddedWidth rowBytes
  rw [UInt16.toNat_ofNat']
  omega

theorem toNat_paddedWidth (p : Page) : (paddedWidth p).toNat = 8 * rowBytes p.width := by
  have hle := p.width_le
  unfold paddedWidth rowBytes
  rw [UInt16.toNat_ofNat']
  omega

/-- The decoded bytes of group `k`. -/
def groupBytes (p : Page) (k : Nat) : Bytes :=
  transposed (bandRows p.width (group p.bits k)) (rowBytes p.width)

theorem groupBand_header (p : Page) (k offset : Nat) :
    (groupBand p k offset).header.height = 128 ∧
      (groupBand p k offset).header.width = paddedWidth p ∧
      (groupBand p k offset).header.compression = COMPRESSION_0X11 :=
  ⟨rfl, rfl, rfl⟩

theorem bandSize_groupBand (p : Page) (k offset : Nat) :
    bandSize (groupBand p k offset).header = rowBytes p.width * 128 := by
  rw [← rowBytes_paddedWidth]
  rfl

/-- The payload of a group decodes to its bytes. -/
theorem decodesFully_groupBand (p : Page) (k offset : Nat) :
    DecodesFully (groupBand p k offset).header (groupBand p k offset).payload ∧
      (codec11Decode (groupBand p k offset).payload
        (bandSize (groupBand p k offset).header)).out = groupBytes p k := by
  have hpayload : (groupBand p k offset).payload =
      (encodedPayload (groupBytes p k) (codec11ChooseTable (groupBytes p k))).bytes :=
    bandPayload_eq p.width _
  obtain ⟨hvalid, hout, -⟩ :=
    encodedPayload_spec (groupBytes p k) (codec11ChooseTable (groupBytes p k))
  have hlen : (groupBytes p k).length = rowBytes p.width * 128 := length_transposed _ _
  obtain ⟨hrc, hdecoded, -⟩ := codec11Decode_bytes _ (rowBytes p.width * 128) hvalid
    (by rw [hout, hlen])
  unfold DecodesFully
  rw [bandSize_groupBand, hpayload, hdecoded, hout]
  exact ⟨⟨hrc, hlen⟩, rfl⟩

/-- The bytes of a group, turned back into rows, are its row buffer. -/
theorem bandByte_groupBytes (p : Page) (k : Nat) {line col : Nat} (hline : line < 128)
    (hcol : col < rowBytes p.width) :
    bandByte (some (groupBytes p k)) line col =
      byteAt (bandRows p.width (group p.bits k)) (line * rowBytes p.width + col) := by
  have hlen : (bandRows p.width (group p.bits k)).length = rowBytes p.width * 128 := by
    refine length_bandRows ?_
    rw [group, List.length_take]
    omega
  have hzeros : (List.replicate (rowBytes p.width * 128) (0 : UInt8)).length =
      rowBytes p.width * 128 := List.length_replicate
  have hrows := bandToRows_transposed hlen hzeros
  have hbyte := byteAt_bandToRows (groupBytes p k)
    (List.replicate (rowBytes p.width * 128) (0 : UInt8)) hzeros.ge hcol hline
  unfold groupBytes at hbyte
  rw [hrows] at hbyte
  exact hbyte.symm

/-! ## Bands in a run -/

/-- What the report and the files of the command say. -/
structure SameOutput (d d' : DecodeCtx) : Prop where
  pbmPrefix_eq : d'.pbmPrefix = d.pbmPrefix
  canOpen_eq : d'.canOpen = d.canOpen
  pages_eq : d'.pages = d.pages
  errors_eq : d'.errors = d.errors
  files_eq : d'.files = d.files

theorem SameOutput.trans {d d' d'' : DecodeCtx} (h : SameOutput d d') (h' : SameOutput d' d'') :
    SameOutput d d'' :=
  ⟨h'.pbmPrefix_eq.trans h.pbmPrefix_eq, h'.canOpen_eq.trans h.canOpen_eq,
    h'.pages_eq.trans h.pages_eq, h'.errors_eq.trans h.errors_eq, h'.files_eq.trans h.files_eq⟩

/-- A band that decodes into buffers changes no output. -/
theorem onBand_sameOutput {d : DecodeCtx} {h : BandHeader} {payload : Bytes}
    (hdecoded : Decoded d h payload) : SameOutput d (onBand d h payload) := by
  obtain ⟨hcomp, hbuffered, hfull⟩ := hdecoded
  have hbuffers : SameOutput d (withBuffers (noteWidth d h) h) := by
    unfold withBuffers
    split_ifs <;> exact ⟨rfl, rfl, rfl, rfl, rfl⟩
  rcases onBand_cases d h payload with ⟨hno, -⟩ | ⟨-, hno, -⟩ | ⟨-, -, heq⟩
  · exact absurd hcomp hno
  · exact absurd hbuffered hno
  · rw [heq]
    refine hbuffers.trans ?_
    generalize withBuffers (noteWidth d h) h = d1
    rcases decodeBand_cases d1 h payload with ⟨hbad, -⟩ | ⟨-, -, heq⟩ | ⟨-, page, band, -, -, heq⟩
    · exact absurd hfull hbad
    · rw [heq]
      exact ⟨rfl, rfl, rfl, rfl, rfl⟩
    · rw [heq]
      exact ⟨rfl, rfl, rfl, rfl, rfl⟩

/-- One band of a page. -/
theorem groupBand_step {p : Page} {s : LoggedCtx} (htracks : Tracks (paddedWidth p) s)
    (hroomy : Roomy s.1) {k : Nat} (hk : k < 256) (offset : Nat) :
    ∃ d, loggedStep s (groupBand p k offset).event =
        (d, s.2.decode (UInt8.ofNat k) (groupBytes p k)) ∧
      Tracks (paddedWidth p) (d, s.2.decode (UInt8.ofNat k) (groupBytes p k)) ∧ Roomy d ∧
      d.pageRows ≠ none ∧ d.maxBand = max s.1.maxBand k ∧ SameOutput s.1 d := by
  obtain ⟨hheight, hwidth, hcomp⟩ := groupBand_header p k offset
  obtain ⟨hfull, hout⟩ := decodesFully_groupBand p k offset
  obtain ⟨hdecoded, hroomy', hpage, hmax⟩ := hroomy.band hcomp hfull
  have hnumber : (groupBand p k offset).header.number.toNat = k := by
    show (UInt8.ofNat k).toNat = k
    rw [UInt8.toNat_ofNat']
    omega
  have hstep : loggedStep s (groupBand p k offset).event =
      (onBand s.1 (groupBand p k offset).header (groupBand p k offset).payload,
        s.2.decode (UInt8.ofNat k) (groupBytes p k)) := by
    rw [← hout]
    exact congrArg (Prod.mk _) (if_pos hdecoded)
  have htracks' := tracks_band hheight hwidth htracks offset (groupBand p k offset).payload
  refine ⟨_, hstep, ?_, hroomy', hpage, ?_, onBand_sameOutput hdecoded⟩
  · rw [← hstep]
    exact htracks'
  · rw [hmax, hnumber]
    split_ifs <;> omega

/-- The log behind the bands of the groups `ks`. -/
def logGroups (p : Page) (log : PageLog) (ks : List Nat) : PageLog :=
  ks.foldl (fun log k => log.decode (UInt8.ofNat k) (groupBytes p k)) log

/-- The highest of these numbers and `m`. -/
def highest (m : Int) (ks : List Nat) : Int := ks.foldl (fun (m : Int) (k : Nat) => max m k) m

/-- The bands of a page, one after the other. -/
theorem groupBands_run {p : Page} {s : LoggedCtx} (htracks : Tracks (paddedWidth p) s)
    (hroomy : Roomy s.1) {ks : List Nat} (hks : ∀ k ∈ ks, k < 256) {offsets : List Nat}
    (hlen : offsets.length = ks.length) (hpage : ks = [] → s.1.pageRows ≠ none) :
    ∃ d, Run.run loggedStep s ((List.zipWith (groupBand p) ks offsets).map ReadBand.event) =
        (d, logGroups p s.2 ks) ∧
      Tracks (paddedWidth p) (d, logGroups p s.2 ks) ∧ Roomy d ∧ d.pageRows ≠ none ∧
      d.maxBand = highest s.1.maxBand ks ∧ SameOutput s.1 d := by
  induction ks generalizing s offsets with
  | nil => exact ⟨s.1, by simp [logGroups], htracks, hroomy, hpage rfl, rfl, ⟨rfl, rfl, rfl, rfl, rfl⟩⟩
  | cons k ks ih =>
    obtain ⟨offset, offsets, rfl⟩ := List.exists_cons_of_length_eq_add_one hlen
    obtain ⟨d, hstep, htracks', hroomy', hrows, hmax, hsame⟩ :=
      groupBand_step htracks hroomy (hks k List.mem_cons_self) offset
    obtain ⟨d', hrun, htracks'', hroomy'', hrows', hmax', hsame'⟩ :=
      ih htracks' hroomy' (fun k hk => hks k (List.mem_cons_of_mem _ hk)) (by simpa using hlen)
        fun _ => hrows
    refine ⟨d', ?_, htracks'', hroomy'', hrows', ?_, hsame.trans hsame'⟩
    · rw [List.zipWith_cons_cons, List.map_cons, Run.run_cons, hstep]
      exact hrun
    · rw [hmax']
      show highest d.maxBand ks = _
      rw [hmax]
      rfl

/-- What is on the bitmap behind the bands of the groups `ks`. -/
theorem held_logGroups (p : Page) (log : PageLog) {ks : List Nat} (hks : ∀ k ∈ ks, k < 256)
    (k : Nat) :
    (logGroups p log ks).held k = if k ∈ ks then some (groupBytes p k) else log.held k := by
  induction ks generalizing log with
  | nil => rfl
  | cons k' ks ih =>
    have hnumber : (UInt8.ofNat k').toNat = k' := by
      have hlt := hks k' List.mem_cons_self
      rw [UInt8.toNat_ofNat']
      omega
    have hput : (log.decode (UInt8.ofNat k') (groupBytes p k')).held =
        log.held.put (UInt8.ofNat k') (groupBytes p k') := Bands.put_overlay _ _ _ _
    have hrest := ih (log.decode (UInt8.ofNat k') (groupBytes p k'))
      fun k hk => hks k (List.mem_cons_of_mem _ hk)
    refine hrest.trans ?_
    rw [hput]
    by_cases hk : k ∈ ks
    · rw [if_pos hk, if_pos (List.mem_cons_of_mem _ hk)]
    · rw [if_neg hk]
      by_cases heq : k = k'
      · subst heq
        rw [if_pos List.mem_cons_self]
        have hsame := Bands.put_same log.held (UInt8.ofNat k) (groupBytes p k)
        rwa [hnumber] at hsame
      · rw [if_neg (by simp [heq, hk])]
        exact Bands.put_of_ne _ _ (by rwa [hnumber])

theorem highest_last {ks : List Nat} {k : Nat} (hks : ∀ k' ∈ ks, k' < k) :
    highest (-1) (ks ++ [k]) = k := by
  have hle (m : Int) (hm : m ≤ k) : highest m ks ≤ k := by
    induction ks generalizing m with
    | nil => exact hm
    | cons k' ks ih =>
      refine ih (fun k' hk' => hks k' (List.mem_cons_of_mem _ hk')) _ ?_
      have hlt := hks k' List.mem_cons_self
      show max m (k' : Int) ≤ k
      omega
  have hmax : highest (-1) (ks ++ [k]) = max (highest (-1) ks) k := List.foldl_append
  have hbelow := hle (-1) (by omega)
  rw [hmax]
  omega

/-! ## A page as a file -/

/-- Some pixel of the page is black. -/
def inked (p : Page) : Bool := !(blackGroups p.bits).isEmpty

theorem inked_iff {p : Page} : inked p = true ↔ ∃ y x, p.pixel y x = true := by
  unfold inked
  rw [Bool.not_eq_true', List.isEmpty_eq_false_iff_exists_mem]
  simp only [mem_blackGroups_bits]
  exact ⟨fun ⟨_, y, x, _, h⟩ => ⟨y, x, h⟩, fun ⟨y, x, h⟩ => ⟨y / 128, y, x, rfl, h⟩⟩

/-- The lines up to the end of the last group with a black pixel. -/
def pageLines (p : Page) : Nat :=
  match (blackGroups p.bits).getLast? with
  | none => 0
  | some k => (k + 1) * 128

/-- The file is page `number` of the job, without the white bands at its end. -/
structure Pbm.Depicts (f : Pbm) (pbmPrefix : Bytes) (number : Nat) (p : Page) : Prop where
  path_eq : f.path = pbmPath pbmPrefix number
  width_eq : f.width = paddedWidth p
  height_eq : f.height = pageLines p
  length_rows : f.rows.length = f.height * f.rowBytes
  pixels : ∀ y < f.height, ∀ x < f.width.toNat,
    Bits.get (Buffer.load f.rows (y * f.rowBytes) f.rowBytes) x = p.pixel y x

/-- A pixel in a run of bytes. -/
theorem get_load (mem : Bytes) (off : Nat) {len x : Nat} (hx : x < 8 * len) :
    Bits.get (Buffer.load mem off len) x = Bits.ofByte (byteAt mem (off + x / 8)) (x % 8) := by
  unfold Bits.get byteAt
  rw [List.getD_eq_getElem?_getD, Buffer.getElem?_load, if_pos (by omega),
    List.getD_eq_getElem?_getD]

/-- A bitmap that holds the groups of a page shows its pixels. -/
theorem pixel_of_held {p : Page} {held : Bands}
    (hheld : ∀ k, held k = if k ∈ blackGroups p.bits then some (groupBytes p k) else none)
    (y : Nat) {x : Nat} (hx : x < 8 * rowBytes p.width) :
    Bits.ofByte (held.pageByte y (x / 8)) (x % 8) = p.pixel y x := by
  unfold Bands.pageByte
  rw [hheld]
  split_ifs with hk
  · have hline : y % 128 < 128 := Nat.mod_lt _ (by decide)
    rw [bandByte_groupBytes p _ hline (by omega), ← get_load _ _ hx, get_bandRows _ hx,
      getD_group _ _ hline, getD_bits, Nat.div_add_mod]
  · rw [mem_blackGroups_bits] at hk
    push Not at hk
    have hwhite : p.pixel y x = false := Bool.eq_false_iff.mpr (hk y x rfl)
    rw [hwhite]
    exact Bits.ofByte_zero _

/-! ## One page -/

/-- The context between two pages of an encoded job. -/
structure Clean (pbmPrefix : Bytes) (d : DecodeCtx) : Prop where
  pbm : d.pbmPrefix = some pbmPrefix
  opens : ∀ n, d.canOpen n = true
  succeeds : d.heap.Succeeds
  maxBand_le : d.maxBand ≤ 255
  page : d.bandBuf ≠ none → d.pageRows ≠ none
  length_bandBuf : ∀ band ∈ d.bandBuf, band.length = d.bytesPerRow * 128
  white : ∀ page ∈ d.pageRows, page = List.replicate (256 * (d.bytesPerRow * 128)) 0

theorem clean_start (pbmPrefix : Bytes) {heap : Heap UInt8} (hheap : heap.Succeeds) :
    Clean pbmPrefix (decodeStart (some pbmPrefix) heap fun _ => true) where
  pbm := rfl
  opens := fun _ => rfl
  succeeds := hheap
  maxBand_le := by simp [decodeStart]
  page := fun h => absurd rfl h
  length_bandBuf := fun band hband => absurd hband (Option.not_mem_none band)
  white := fun page hpage => absurd hpage (Option.not_mem_none page)

/-- The context on a new page, without the buffers its first band does not
use. -/
def freshPage (d : DecodeCtx) (bpr : Nat) : DecodeCtx :=
  if d.bandBuf = none ∨ d.bytesPerRow ≠ bpr then
    { onPage d with bandBuf := none, rowsBuf := none, pageRows := none }
  else onPage d

/-- A band that allocates drops the buffers there were. -/
theorem onBand_freshPage (d : DecodeCtx) {h : BandHeader} (payload : Bytes)
    (hcomp : h.compression = COMPRESSION_0X11) :
    onBand (freshPage d (rowBytesOf h)) h payload = onBand (onPage d) h payload := by
  unfold freshPage
  split_ifs with hmissing
  · have hpage : (onPage d).bandBuf = none ∨ (onPage d).bytesPerRow ≠ h.width.toNat / 8 := hmissing
    unfold onBand
    dsimp only
    rw [if_neg (not_not.mpr hcomp), if_neg (not_not.mpr hcomp), if_pos (.inl rfl), if_pos hpage]
    rfl
  · rfl

/-- A new page is tracked from its fresh context on. -/
theorem freshPage_tracks {pbmPrefix : Bytes} {d : DecodeCtx} (h : Clean pbmPrefix d) (p : Page) :
    Tracks (paddedWidth p) (freshPage d (rowBytes p.width), {}) ∧
      Roomy (freshPage d (rowBytes p.width)) := by
  have hsize : bandBytes (paddedWidth p) = rowBytes p.width * 128 := by
    rw [bandBytes, rowBytes_paddedWidth]
  have hpbm : d.pbmPrefix.isSome = true := by rw [h.pbm]; rfl
  unfold freshPage
  split_ifs with hmissing
  · refine ⟨⟨consistent_start _, fun _ => rfl, ?_, ?_, ?_, ?_, ?_, ?_, .inl rfl, ?_⟩, hpbm,
      h.succeeds, by simp [onPage], fun hne => absurd rfl hne⟩
    · intro hsome
      exact absurd hsome (by simp)
    · intro band hband
      exact absurd hband (Option.not_mem_none band)
    · intro page hpage
      exact absurd hpage (Option.not_mem_none page)
    · intro page hpage
      exact absurd hpage (Option.not_mem_none page)
    · simp [onPage]
    · intro hne
      exact absurd rfl hne
    · intro hne
      exact absurd rfl hne
  · obtain ⟨hband, hrow⟩ := not_or.mp hmissing
    rw [not_not] at hrow
    refine ⟨⟨consistent_start _, fun _ => rfl, ?_, ?_, ?_, ?_, ?_, ?_, .inl rfl, ?_⟩, hpbm,
      h.succeeds, by simp [onPage], h.page⟩
    · intro _
      rw [rowBytes_paddedWidth]
      exact hrow
    · intro band hband
      rw [hsize, ← hrow]
      exact h.length_bandBuf band hband
    · intro page hpage
      rw [h.white page hpage, List.length_replicate, hsize, hrow]
    · intro page hpage line _ col _
      rw [h.white page hpage, byteAt_replicate_zero]
      rfl
    · simp [onPage]
    · intro _ k hk
      exact absurd rfl hk
    · intro _ hpos
      exact absurd hpos (by simp [onPage])

/-- The callbacks for a page of an encoded job. -/
theorem events_pageRecords (job : QpdlJob) (p : Page) (pos : Nat) :
    ∃ (offsets : List Nat) (stop : Nat), offsets.length = (blackGroups p.bits).length ∧
      Record.events pos (pageRecords job p) = .page pos job.pageHeader ::
        ((List.zipWith (groupBand p) (blackGroups p.bits) offsets).map ReadBand.event ++
          [.endPage stop job.copies]) := by
  obtain ⟨offsets, hlen, hevents⟩ :=
    events_groupRecords p (pos + (Record.page job.pageHeader).bytes.length) (blackGroups p.bits)
  refine ⟨offsets, pos + (Record.page job.pageHeader).bytes.length +
    (((blackGroups p.bits).map (groupRecord p.width p.width_le p.bits)).flatMap
      Record.bytes).length, hlen, ?_⟩
  unfold pageRecords
  rw [Record.events, Record.events_append, hevents]
  rfl

theorem run_logged (s : LoggedCtx) (evs : List Event) :
    (Run.run loggedStep s evs).1 = Run.run decodeStep s.1 evs := by
  induction evs generalizing s with
  | nil => rfl
  | cons ev evs ih => exact ih (loggedStep s ev)

/-- The bands of a page do not see the buffers their first one drops. -/
theorem run_freshPage (d : DecodeCtx) (p : Page) {k offset : Nat} (ks offsets : List Nat) :
    let bands := (List.zipWith (groupBand p) (k :: ks) (offset :: offsets)).map ReadBand.event
    Run.run decodeStep (onPage d) bands =
      Run.run decodeStep (freshPage d (rowBytes p.width)) bands := by
  have hrow : rowBytesOf (groupBand p k offset).header = rowBytes p.width :=
    rowBytes_paddedWidth p
  have hfirst := onBand_freshPage d (groupBand p k offset).payload
    (h := (groupBand p k offset).header) rfl
  rw [hrow] at hfirst
  intro bands
  show Run.run decodeStep (onBand (onPage d) (groupBand p k offset).header
    (groupBand p k offset).payload) ((List.zipWith (groupBand p) ks offsets).map ReadBand.event) = _
  rw [← hfirst]
  rfl

theorem group_lt (p : Page) : ∀ k ∈ blackGroups p.bits, k < 256 := by
  intro k hk
  have hmem := List.mem_range.mp (List.mem_of_mem_filter hk)
  have hrows := p.rows_le
  rw [groups, Page.bits, List.length_map] at hmem
  omega

theorem pageLines_le (p : Page) : pageLines p ≤ 256 * 128 := by
  unfold pageLines
  cases hlast : (blackGroups p.bits).getLast? with
  | none => exact Nat.zero_le _
  | some k =>
    have hlt := group_lt p k (List.mem_of_getLast? hlast)
    exact Nat.mul_le_mul_right 128 hlt

/-- The highest group of a page with a black pixel ends its lines. -/
theorem pageLines_eq {p : Page} (hinked : blackGroups p.bits ≠ []) :
    0 ≤ highest (-1) (blackGroups p.bits) ∧
      ((highest (-1) (blackGroups p.bits)).toNat + 1) * 128 = pageLines p := by
  have hsorted : (blackGroups p.bits).Pairwise (· < ·) := List.pairwise_lt_range.filter _
  obtain ⟨ks, k, hks⟩ := List.eq_nil_or_concat (blackGroups p.bits) |>.resolve_left hinked
  unfold pageLines
  rw [hks, List.concat_eq_append] at hsorted ⊢
  rw [List.getLast?_concat]
  have hbelow : ∀ k' ∈ ks, k' < k := fun k' hk' =>
    (List.pairwise_append.mp hsorted).2.2 k' hk' k List.mem_cons_self
  rw [highest_last hbelow]
  exact ⟨Int.natCast_nonneg k, rfl⟩

/-- The file of a page whose bitmap holds its groups. -/
theorem depicts_pbmOf {p : Page} {d : DecodeCtx} {log : PageLog} {pbmPrefix page : Bytes}
    (htracks : Tracks (paddedWidth p) (d, log)) (hpage : d.pageRows = some page)
    (hpbm : d.pbmPrefix = some pbmPrefix) (hinked : blackGroups p.bits ≠ [])
    (hmax : d.maxBand = highest (-1) (blackGroups p.bits))
    (hheld : ∀ k, log.held k = if k ∈ blackGroups p.bits then some (groupBytes p k) else none) :
    (pbmOf d page).Depicts pbmPrefix d.pages p := by
  obtain ⟨hpos, hlines⟩ := pageLines_eq hinked
  have hrows : d.pageRows ≠ none := by
    rw [hpage]
    exact Option.some_ne_none page
  have hwidth : d.bandWidth = paddedWidth p := htracks.bandWidth_eq hrows (by rw [hmax]; exact hpos)
  have hbpr : d.bytesPerRow = rowBytes p.width :=
    (htracks.bytesPerRow_eq (.inr hrows)).trans (rowBytes_paddedWidth p)
  have hheight : (pbmOf d page).height = pageLines p := by
    show (d.maxBand.toNat + 1) * 128 = _
    rw [hmax, hlines]
  have hrowBytes : (pbmOf d page).rowBytes = rowBytes p.width := by
    show (d.bandWidth.toNat + 7) / 8 = _
    rw [hwidth, toNat_paddedWidth]
    omega
  have hle : pageLines p ≤ 256 * 128 := by
    have hmaxle : d.maxBand ≤ 255 := htracks.maxBand_le
    rw [← hlines, ← hmax]
    omega
  have hlen : page.length = 256 * 128 * rowBytes p.width := by
    rw [htracks.length_page page hpage, bandBytes, rowBytes_paddedWidth]
    ring
  have hfile : (pbmOf d page).rows = page.take (pageLines p * rowBytes p.width) := by
    show page.take ((d.maxBand.toNat + 1) * 128 * d.bytesPerRow) = _
    rw [hmax, hlines, hbpr]
  have hfits : pageLines p * rowBytes p.width ≤ page.length := by
    rw [hlen]
    exact Nat.mul_le_mul_right _ hle
  refine ⟨?_, hwidth, hheight, ?_, fun y hy x hx => ?_⟩
  · show pbmPath (d.pbmPrefix.getD []) d.pages = _
    rw [hpbm]
    rfl
  · rw [hfile, hrowBytes, hheight, List.length_take_of_le hfits]
  · rw [hheight] at hy
    have hx' : x < 8 * rowBytes p.width := by
      rw [← toNat_paddedWidth, ← hwidth]
      exact hx
    have hlast : y * rowBytes p.width + x / 8 < pageLines p * rowBytes p.width := by
      rw [Nat.mul_comm y]
      exact Nat.mul_add_lt_mul_of_lt_of_lt hy (by omega)
    have hbyte := htracks.page_eq page hpage y (by omega) (x / 8)
      (by rw [rowBytes_paddedWidth]; omega)
    rw [rowBytes_paddedWidth] at hbyte
    rw [hrowBytes, get_load _ _ hx', hfile, byteAt_take _ hlast, hbyte]
    exact pixel_of_held hheld y hx'

/-- The bands of a page that is not white, from a clean context on. -/
theorem page_bands {pbmPrefix : Bytes} {d : DecodeCtx} (h : Clean pbmPrefix d) {p : Page}
    (hinked : blackGroups p.bits ≠ []) {offsets : List Nat}
    (hlen : offsets.length = (blackGroups p.bits).length) :
    ∃ d', Run.run decodeStep (onPage d)
        ((List.zipWith (groupBand p) (blackGroups p.bits) offsets).map ReadBand.event) = d' ∧
      Tracks (paddedWidth p) (d', logGroups p {} (blackGroups p.bits)) ∧ Roomy d' ∧
      d'.pageRows ≠ none ∧ d'.maxBand = highest (-1) (blackGroups p.bits) ∧
      SameOutput (onPage d) d' := by
  obtain ⟨htracks, hroomy⟩ := freshPage_tracks h p
  obtain ⟨d', hrun, htracks', hroomy', hrows, hmax, hsame⟩ := groupBands_run htracks hroomy
    (group_lt p) hlen fun hnil => absurd hnil hinked
  have hfresh : SameOutput (onPage d) (freshPage d (rowBytes p.width)) ∧
      (freshPage d (rowBytes p.width)).maxBand = -1 := by
    unfold freshPage
    split_ifs <;> exact ⟨⟨rfl, rfl, rfl, rfl, rfl⟩, rfl⟩
  refine ⟨d', ?_, htracks', hroomy', hrows, ?_, hfresh.1.trans hsame⟩
  · have hdecode := congrArg Prod.fst hrun
    rw [run_logged] at hdecode
    obtain ⟨k, ks, hks⟩ := List.exists_cons_of_ne_nil hinked
    rw [hks] at hlen hdecode ⊢
    obtain ⟨offset, offsets, rfl⟩ := List.exists_cons_of_length_eq_add_one hlen
    rw [run_freshPage]
    exact hdecode
  · rw [hmax]
    exact congrArg (fun m => highest m (blackGroups p.bits)) hfresh.2

/-- A page of an encoded job: a white one changes no file, any other one adds
its own. -/
theorem page_run {pbmPrefix : Bytes} {d : DecodeCtx} (h : Clean pbmPrefix d) (job : QpdlJob)
    (p : Page) (pos : Nat) :
    let d' := Run.run decodeStep d (Record.events pos (pageRecords job p))
    Clean pbmPrefix d' ∧ d'.errors = d.errors ∧ d'.pages = d.pages + 1 ∧
      if inked p then ∃ f : Pbm, f.Depicts pbmPrefix (d.pages + 1) p ∧ d'.files = d.files ++ [f]
      else d'.files = d.files := by
  obtain ⟨offsets, stop, hlen, hevents⟩ := events_pageRecords job p pos
  have hrun : Run.run decodeStep d (Record.events pos (pageRecords job p)) =
      writePbm (Run.run decodeStep (onPage d)
        ((List.zipWith (groupBand p) (blackGroups p.bits) offsets).map ReadBand.event)) := by
    rw [hevents, Run.run_cons, Run.run_append]
    rfl
  intro d'
  have hd' : d' = writePbm (Run.run decodeStep (onPage d) _) := hrun
  by_cases hinked : blackGroups p.bits = []
  · have hwhite : inked p = false := by
      unfold inked
      rw [hinked]
      rfl
    rw [hinked, List.zipWith_nil_left, List.map_nil, Run.run_nil] at hd'
    have hpage : d' = onPage d := by
      rcases writePbm_cases (onPage d) with ⟨hwrites, -⟩ | ⟨-, opened, errors, heq⟩
      · exact absurd hwrites.2.1 (by simp [onPage])
      · rw [hd']
        unfold writePbm
        split
        · rfl
        · exact if_pos (by simp [onPage])
    rw [hpage, hwhite]
    exact ⟨⟨h.pbm, h.opens, h.succeeds, by simp [onPage], h.page, h.length_bandBuf, h.white⟩, rfl,
      rfl, rfl⟩
  · have hblack : inked p = true := by
      unfold inked
      rw [Bool.not_eq_true', List.isEmpty_eq_false_iff]
      exact hinked
    obtain ⟨d1, hbands, htracks, hroomy, hrows, hmax, hsame⟩ := page_bands h hinked hlen
    rw [hbands] at hd'
    have hopens : ∀ n, d1.canOpen n = true := by
      intro n
      rw [hsame.canOpen_eq]
      exact h.opens n
    have hpbm : d1.pbmPrefix = some pbmPrefix := hsame.pbmPrefix_eq.trans h.pbm
    have hpos : 0 ≤ d1.maxBand := by
      rw [hmax]
      exact (pageLines_eq hinked).1
    rcases writePbm_cases d1 with ⟨-, page, hpage, heq⟩ | ⟨hno, -⟩
    swap
    · exact absurd ⟨hrows, hpos, hopens _⟩ hno
    have hdepicts := depicts_pbmOf htracks hpage hpbm hinked hmax fun k => by
      rw [held_logGroups p {} (group_lt p)]
      rfl
    rw [hd', heq, if_pos hblack]
    have hbpr : d1.bytesPerRow * 128 = bandBytes (paddedWidth p) := by
      rw [htracks.bytesPerRow_eq (.inr hrows), bandBytes]
    refine ⟨⟨hpbm, hopens, hroomy.succeeds, htracks.maxBand_le,
      fun _ => Option.some_ne_none _, ?_, ?_⟩, hsame.errors_eq, hsame.pages_eq, pbmOf d1 page, ?_, ?_⟩
    · intro band hband
      exact (htracks.length_bandBuf band hband).trans hbpr.symm
    · rintro cleared ⟨rfl⟩
      show Buffer.store page 0 (List.replicate (256 * 128 * d1.bytesPerRow) 0) = _
      rw [cleared_eq htracks hpage, ← hbpr]
      rfl
    · rw [hsame.pages_eq] at hdepicts
      exact hdepicts
    · exact congrArg (· ++ [pbmOf d1 page]) hsame.files_eq

/-! ## Whole jobs -/

/-- The pages that are not white, with their numbers from `number` on. -/
def inkedPages (pages : List Page) (number : Nat) : List (Page × Nat) :=
  (pages.zipIdx number).filter fun q => inked q.1

/-- The pages of a job, one after the other. -/
theorem pages_run {pbmPrefix : Bytes} {d : DecodeCtx} (h : Clean pbmPrefix d) (job : QpdlJob)
    (pages : List Page) (pos : Nat) :
    let d' := Run.run decodeStep d (Record.events pos (pagesRecords job pages))
    d'.errors = d.errors ∧ d'.pages = d.pages + pages.length ∧
      ∃ files, d'.files = d.files ++ files ∧
        List.Forall₂ (fun q (f : Pbm) => f.Depicts pbmPrefix q.2 q.1)
          (inkedPages pages (d.pages + 1)) files := by
  induction pages generalizing d pos with
  | nil => exact ⟨rfl, rfl, [], (List.append_nil _).symm, .nil⟩
  | cons p pages ih =>
    intro d'
    have hevents : Record.events pos (pagesRecords job (p :: pages)) =
        Record.events pos (pageRecords job p) ++
          Record.events (pos + ((pageRecords job p).flatMap Record.bytes).length)
            (pagesRecords job pages) := by
      rw [← Record.events_append]
      rfl
    have hd' : d' = Run.run decodeStep (Run.run decodeStep d (Record.events pos (pageRecords job p)))
        (Record.events (pos + ((pageRecords job p).flatMap Record.bytes).length)
          (pagesRecords job pages)) := by
      rw [← Run.run_append, ← hevents]
    obtain ⟨hclean, herrors, hpages, hfile⟩ := page_run h job p pos
    obtain ⟨herrors', hpages', files, hfiles, hdepict⟩ :=
      ih hclean (pos + ((pageRecords job p).flatMap Record.bytes).length)
    rw [← hd'] at herrors' hpages' hfiles
    rw [hpages] at hpages' hdepict
    refine ⟨herrors'.trans herrors, ?_, ?_⟩
    · rw [hpages', List.length_cons]
      omega
    · unfold inkedPages at hdepict ⊢
      rw [List.zipIdx_cons, List.filter_cons]
      split_ifs at hfile ⊢ with hinked
      · obtain ⟨f, hf, hsnoc⟩ := hfile
        refine ⟨f :: files, ?_, .cons hf hdepict⟩
        rw [hfiles, hsnoc, List.append_assoc]
        rfl
      · exact ⟨files, by rw [hfiles, hfile], hdepict⟩

theorem run_lineEvents (d : DecodeCtx) (pos : Nat) (lines : List Bytes) :
    Run.run decodeStep d (lineEvents pos lines) = d := by
  induction lines generalizing pos with
  | nil => rfl
  | cons line lines ih => exact ih (pos + line.length + 2)

/-- The stream of a job, decoded. -/
theorem cmdDecode_jobBytes {job : QpdlJob} (hjob : job.Accepted) (hu : job.Unmarked)
    (pages : List Page) (pbmPrefix : Bytes) {heap : Heap UInt8} (hheap : heap.Succeeds) :
    let d := cmdDecode (decodeStart (some pbmPrefix) heap fun _ => true) (jobBytes job pages)
    d.errors = 0 ∧ d.pages = pages.length ∧
      List.Forall₂ (fun q (f : Pbm) => f.Depicts pbmPrefix q.2 q.1) (inkedPages pages 1)
        d.files := by
  intro d
  have hwalk := walk_job hjob hu (pagesRecords job pages)
  rw [flatMap_pagesRecords] at hwalk
  have hd : d = Run.run decodeStep (decodeStart (some pbmPrefix) heap fun _ => true)
      (Record.events (envelope job).length (pagesRecords job pages)) := by
    show cmdDecode _ (jobBytes job pages) = _
    unfold cmdDecode jobBytes
    rw [hwalk]
    dsimp only
    rw [Run.run_append, Run.run_append, run_lineEvents]
    rfl
  obtain ⟨herrors, hpages, files, hfiles, hdepict⟩ :=
    pages_run (clean_start pbmPrefix hheap) job pages (envelope job).length
  rw [← hd] at herrors hpages hfiles
  refine ⟨herrors, hpages.trans (Nat.zero_add _), ?_⟩
  rw [hfiles]
  exact hdepict

/-- Encoding and decoding.  The decode command reads any job the encoder wrote
without an error and counts its pages, and the files it writes are exactly the
pages that are not white, in their order, under their numbers, pixel by pixel,
whatever the widths of the pages. -/
theorem cmdDecode_encodeJob (e : Encoder) (job : QpdlJob) (sink : Sink) (pages : List Page)
    (hjob : job.refused = false) (hsink : ∀ n, sink.answer n = 0) (hempty : sink.accepted = [])
    (hu : job.Unmarked) (pbmPrefix : Bytes) (heap : Heap UInt8) (hheap : heap.Succeeds) :
    let d := cmdDecode (decodeStart (some pbmPrefix) heap fun _ => true)
      (encodeJob e job sink pages).2.sink.accepted
    d.errors = 0 ∧ d.pages = pages.length ∧
      List.Forall₂ (fun q (f : Pbm) => f.Depicts pbmPrefix q.2 q.1) (inkedPages pages 1)
        d.files := by
  obtain ⟨e', hrun, hout⟩ := encodeJob_run e job sink pages hjob hsink
  rw [hempty, List.nil_append] at hout
  rw [hrun]
  dsimp only
  rw [hout]
  exact cmdDecode_jobBytes (QpdlJob.accepted hjob) hu pages pbmPrefix hheap

/-- The default job with a page of one row. -/
theorem cmdDecode_encodeJob_small :
    let d := cmdDecode (decodeStart (some (ascii "out")) zeroHeap fun _ => true)
      (encodeJob { job := qpdlJobDefault, sink := .accepting } qpdlJobDefault .accepting
        [smallPage]).2.sink.accepted
    d.errors = 0 ∧ d.pages = [smallPage].length ∧
      List.Forall₂ (fun q (f : Pbm) => f.Depicts (ascii "out") q.2 q.1) (inkedPages [smallPage] 1)
        d.files :=
  cmdDecode_encodeJob _ qpdlJobDefault .accepting [smallPage] (by decide) (fun _ => rfl) rfl
    ⟨by decide, by decide⟩ (ascii "out") zeroHeap zeroHeap_succeeds

end Airbridge.Cli
