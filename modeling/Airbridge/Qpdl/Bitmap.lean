import Airbridge.Qpdl.JobRead

/-!
# The bitmap of a page

What a printer that reads the stream puts on paper: a page starts white, and
each band record draws its 128 lines at `128 * number`.
-/

namespace Airbridge.Qpdl

/-- A bitmap says whether pixel `x` of line `y` is black. -/
abbrev Bitmap := Nat → Nat → Bool

def Bitmap.white : Bitmap := fun _ _ => false

/-- Draw the lines of a band. -/
def drawBand (bitmap : Bitmap) (b : ReadBand) : Bitmap := fun y x =>
  if y / 128 = b.header.number.toNat then
    let bytesPerRow := b.header.width.toNat / 8
    let band := (codec11Decode b.payload (bytesPerRow * 128)).out
    let rows := bandToRows band bytesPerRow (List.replicate (bytesPerRow * 128) 0)
    Bits.get (Buffer.load rows (y % 128 * bytesPerRow) bytesPerRow) x
  else bitmap y x

/-- The bitmap of a list of bands. -/
def bitmapOf (bands : List ReadBand) : Bitmap := bands.foldl drawBand Bitmap.white

/-- The band of a callback. -/
def Event.band? : Event → Option ReadBand
  | .band offset h payload => some ⟨offset, h, payload⟩
  | _ => none

/-- The bands a stream of records holds. -/
def bandsOf (records : Bytes) : List ReadBand := (walkRecords 0 records).events.filterMap Event.band?

/-! ## Drawing a page -/

/-- The pixels right of a band are white, like those right of the page. -/
theorem get_load_right {rows : Bytes} {start len x : Nat} (hx : 8 * len ≤ x) :
    Bits.get (Buffer.load rows start len) x = false := by
  have hlen : (Buffer.load rows start len).length ≤ len := by
    rw [Buffer.load, List.length_take]
    exact Nat.min_le_left _ _
  exact Bits.get_of_le (by omega)

/-- A band that reads as lines of the page draws them. -/
theorem drawBand_read {p : Page} {b : ReadBand} (h : BandRead p b) (bitmap : Bitmap) (y x : Nat) :
    drawBand bitmap b y x =
      if y / 128 = b.header.number.toNat then p.pixel y x else bitmap y x := by
  rw [drawBand]
  split_ifs with hy
  · have hwidth := h.width
    dsimp only
    rcases Nat.lt_or_ge x b.header.width.toNat with hx | hx
    · obtain ⟨-, -, hrows⟩ := h.decoded _ (le_refl _)
      have := hrows (List.replicate (b.header.width.toNat / 8 * 128) 0) List.length_replicate
        (y % 128) (Nat.mod_lt _ (by omega)) x hx
      rw [this, ← hy, Nat.div_add_mod]
    · have hout : ¬x < p.width := by omega
      rw [get_load_right (by omega), Page.pixel, decide_eq_false hout, Bool.false_and]
  · rfl

theorem foldl_drawBand {p : Page} {bands : List ReadBand} (hread : ∀ b ∈ bands, BandRead p b)
    (bitmap : Bitmap) (y x : Nat) :
    bands.foldl drawBand bitmap y x =
      if ∃ b ∈ bands, b.header.number.toNat = y / 128 then p.pixel y x else bitmap y x := by
  induction bands generalizing bitmap with
  | nil => simp
  | cons b bands ih =>
    rw [List.foldl_cons, ih fun b' hb' => hread b' (List.mem_cons_of_mem _ hb'),
      drawBand_read (hread b List.mem_cons_self) bitmap y x]
    by_cases hy : y / 128 = b.header.number.toNat
    · simp [hy]
    · have hne : ¬b.header.number.toNat = y / 128 := fun he => hy he.symm
      simp [hy, hne]

/-- Bands that read as a page, one for each group with a black pixel, draw the
page. -/
theorem bitmapOf_read {p : Page} {bands : List ReadBand} (hread : ∀ b ∈ bands, BandRead p b)
    (hall : ∀ n, (∃ b ∈ bands, b.header.number.toNat = n) ↔ ∃ y x, y / 128 = n ∧ p.pixel y x = true)
    (y x : Nat) : bitmapOf bands y x = p.pixel y x := by
  rw [bitmapOf, foldl_drawBand hread]
  split_ifs with h
  · rfl
  · rw [hall] at h
    push Not at h
    have := h y x rfl
    rw [Bitmap.white]
    simpa using this.symm

theorem bandsOf_records (rs : List Record) :
    bandsOf (rs.flatMap Record.bytes) = (Record.events 0 rs).filterMap Event.band? := by
  have hwalk := walkRecords_records 0 rs []
  rw [List.append_nil, walkRecords] at hwalk
  rw [bandsOf, hwalk]
  dsimp only
  rw [List.append_nil]

/-- The groups of a page, behind any record that is not a band and in front of
the end of the page, draw the page. -/
theorem bitmapOf_groups (p : Page) (front : List Record) (copies : UInt16)
    (hfront : (Record.events 0 front).filterMap Event.band? = []) (y x : Nat) :
    bitmapOf (bandsOf ((front ++ (blackGroups p.bits).map (groupRecord p.width p.width_le p.bits) ++
      [Record.endPage copies]).flatMap Record.bytes)) y x = p.pixel y x := by
  obtain ⟨offsets, hlen, hevents⟩ := events_groupRecords p
    (0 + (front.flatMap Record.bytes).length) (blackGroups p.bits)
  obtain ⟨-, hread, hall⟩ := groupBands_read p hlen
  have hband : Event.band? ∘ ReadBand.event = some := rfl
  have hbands : bandsOf ((front ++ (blackGroups p.bits).map
      (groupRecord p.width p.width_le p.bits) ++ [Record.endPage copies]).flatMap Record.bytes) =
        List.zipWith (groupBand p) (blackGroups p.bits) offsets := by
    rw [bandsOf_records, Record.events_append, Record.events_append, List.filterMap_append,
      List.filterMap_append, hfront, hevents, List.filterMap_map, hband, List.filterMap_some]
    exact List.append_nil _
  rw [hbands]
  exact bitmapOf_read hread hall y x

/-- The band records of a page and its end draw the page. -/
theorem bitmapOf_bandRecords (p : Page) (copies : UInt16) (y x : Nat) :
    bitmapOf (bandsOf (bandRecords p.width 0 p.bits ++ writeEndPage copies)) y x = p.pixel y x := by
  have hdraw := bitmapOf_groups p [] copies rfl y x
  rw [List.nil_append, List.flatMap_append, flatMap_groupRecords, List.flatMap_singleton] at hdraw
  exact hdraw

/-- The bytes of a page draw the page. -/
theorem bitmapOf_pageBytes (job : QpdlJob) (p : Page) (y x : Nat) :
    bitmapOf (bandsOf (pageBytes job p.width p.bits)) y x = p.pixel y x := by
  rw [← flatMap_pageRecords]
  exact bitmapOf_groups p [.page job.pageHeader] job.copies rfl y x

end Airbridge.Qpdl
