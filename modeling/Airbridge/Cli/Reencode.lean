import Airbridge.Cli.DecodeJob
import Airbridge.Cli.Render

/-!
# Encoding what was decoded

The files that the decode command writes for an encoded job are inputs of the
encode command.  Each of them gives back the job of its page, byte by byte:
the padding of its width and the white bands that it leaves out do not show in
the job (`encodeJob_again`).
-/

namespace Airbridge.Cli

open Airbridge.Qpdl Airbridge.Halftone Airbridge.Raster Airbridge.Common Memory
open CString (decimal)

/-- The bytes of the file. -/
def Pbm.bytes (f : Pbm) : Bytes :=
  ascii "P4\n" ++ decimal f.width.toNat ++ ascii " " ++ decimal f.height ++ ascii "\n" ++ f.rows

/-! ## The picture in a file -/

/-- The file of a page reaches behind each group with a black pixel. -/
theorem le_pageLines {p : Page} {k : Nat} (hk : k ∈ blackGroups p.bits) :
    (k + 1) * 128 ≤ pageLines p := by
  have hsorted : (blackGroups p.bits).Pairwise (· < ·) := List.pairwise_lt_range.filter _
  obtain ⟨ks, last, hks⟩ :=
    List.eq_nil_or_concat (blackGroups p.bits) |>.resolve_left (List.ne_nil_of_mem hk)
  unfold pageLines
  rw [hks, List.concat_eq_append] at hk hsorted ⊢
  rw [List.getLast?_concat]
  refine Nat.mul_le_mul_right 128 (Nat.succ_le_succ ?_)
  rcases List.mem_append.mp hk with hk | hk
  · exact ((List.pairwise_append.mp hsorted).2.2 k hk last List.mem_cons_self).le
  · exact (List.mem_singleton.mp hk).le

/-- A black pixel lies in the lines and in the width of the file. -/
theorem lt_of_pixel {p : Page} {y x : Nat} (h : p.pixel y x = true) :
    y < pageLines p ∧ x < (paddedWidth p).toNat := by
  constructor
  · have hmem : y / 128 ∈ blackGroups p.bits := mem_blackGroups_bits.mpr ⟨y, x, rfl, h⟩
    have hle := le_pageLines hmem
    omega
  · have hx : x < p.width := by
      rw [Page.pixel, Bool.and_eq_true, decide_eq_true_iff] at h
      exact h.1
    rw [toNat_paddedWidth, rowBytes]
    omega

/-- A page read from the file of a page shows the same picture. -/
theorem Pbm.Depicts.samePicture {f : Pbm} {pbmPrefix : Bytes} {number : Nat} {p q : Page}
    (h : f.Depicts pbmPrefix number p) (hwidth : q.width = f.width.toNat)
    (hrows : q.rows = (List.range f.height).map fun y =>
      Buffer.load f.rows (y * f.rowBytes) f.rowBytes) : SamePicture p q := by
  have hpixel (y x : Nat) : q.pixel y x =
      (decide (y < f.height ∧ x < f.width.toNat) && p.pixel y x) := by
    unfold Page.pixel
    rw [hwidth, hrows]
    by_cases hy : y < f.height
    · rw [List.getD_eq_getElem _ _ (by simpa using hy), List.getElem_map, List.getElem_range]
      by_cases hx : x < f.width.toNat
      · rw [h.pixels y hy x hx]
        simp [hx, hy, Page.pixel]
      · simp [hx]
    · rw [List.getD_eq_default _ _ (by simpa using hy), Bits.get_of_le (Nat.zero_le _)]
      simp [hy]
  constructor
  · intro y x
    rw [hpixel]
    cases hblack : p.pixel y x with
    | false => rw [Bool.and_false]
    | true =>
      obtain ⟨hy, hx⟩ := lt_of_pixel hblack
      rw [h.height_eq, h.width_eq, decide_eq_true ⟨hy, hx⟩, Bool.and_true]
  · intro _
    rw [hwidth, h.width_eq, toNat_paddedWidth]
    unfold Qpdl.rowBytes
    omega

/-! ## Encoding the file -/

/-- The encode command takes the file, and writes the job that has this page
alone. -/
def Reencodes (job : QpdlJob) (p : Page) (f : Pbm) : Prop :=
  ∃ r, rasterOpen f.bytes = some r ∧
    ∀ (srgbGray : UInt8 → UInt8 → UInt8 → UInt8) (enc : Encoder) (heap : Heap UInt8) (sink : Sink)
      (htParams : HtParams) (lut : ToneLut), heap.Succeeds → (∀ n, sink.answer n = 0) →
      ∃ e, cmdEncode srgbGray enc heap sink ⟨job, htParams, lut⟩ r = some (OK, e) ∧
        e.sink.accepted = sink.accepted ++ (encodeJob enc job .accepting [p]).2.sink.accepted

theorem Pbm.Depicts.reencodes {f : Pbm} {pbmPrefix : Bytes} {number : Nat} {p : Page}
    (h : f.Depicts pbmPrefix number p) (hinked : inked p = true) {job : QpdlJob}
    (hjob : job.refused = false) (hdpi : job.dpi ≠ 1200) : Reencodes job p f := by
  obtain ⟨y, x, hblack⟩ := inked_iff.mp hinked
  obtain ⟨hy, hx⟩ := lt_of_pixel hblack
  have hlines : f.height ≤ 256 * 128 := h.height_eq ▸ pageLines_le p
  have hwidth : f.width.toUInt32.toNat = f.width.toNat := UInt16.toNat_toUInt32 f.width
  have hheight : (UInt32.ofNat f.height).toNat = f.height := by
    rw [UInt32.toNat_ofNat']
    exact Nat.mod_eq_of_lt (by omega)
  have hpos : 1 ≤ f.width.toNat := h.width_eq ▸ Nat.one_le_of_lt hx
  have hlt : f.width.toNat ≤ 65280 := by
    have hle := p.width_le
    rw [h.width_eq, toNat_paddedWidth, Qpdl.rowBytes]
    omega
  have hfile : f.bytes =
      pbmHeader f.width.toUInt32 (UInt32.ofNat f.height) ++ f.rows := by
    unfold Pbm.bytes pbmHeader
    rw [hwidth, hheight]
  obtain ⟨r, hopen, hloaded⟩ := rasterOpen_pbm (by omega) (by omega)
    (by rw [hheight, h.height_eq]; exact Nat.one_le_of_lt hy)
    (show f.rows.length = (f.width.toUInt32.toNat + 7) / 8 * (UInt32.ofNat f.height).toNat by
      rw [hwidth, hheight, h.length_rows, Nat.mul_comm]
      rfl)
  refine ⟨r, by rw [hfile, hopen], fun srgbGray enc heap sink htParams lut hheap hsink => ?_⟩
  have hplain : upscales job r = false := by
    simp [upscales, hdpi]
  have hencodable : Encodable ⟨job, htParams, lut⟩ r := by
    refine ⟨hjob, by rw [hplain, Bool.false_and], ?_⟩
    rw [hplain, outSize, if_neg Bool.false_ne_true, hloaded.width_eq, hwidth]
    exact ⟨hpos, hlt⟩
  obtain ⟨e, page, hrun, haccepted, hw, hr⟩ := cmdEncode_encodable srgbGray enc hheap hsink
    hencodable hloaded.inside (fun hup => absurd hup (by rw [hplain]; exact Bool.false_ne_true))
    (by rw [hplain, outSize, if_neg Bool.false_ne_true, hloaded.height_eq, hheight]; exact hlines)
  rw [hplain, outSize, if_neg Bool.false_ne_true, hloaded.width_eq, hwidth] at hw
  have hrows : page.rows = (List.range f.height).map fun y =>
      Buffer.load f.rows (y * f.rowBytes) f.rowBytes := by
    rw [hr, hplain, pageRows, outSize, hloaded.bilevel_eq, if_pos rfl, if_neg Bool.false_ne_true,
      hloaded.height_eq, hheight]
    refine List.map_congr_left fun y hy => ?_
    rw [hloaded.row_eq y (by rw [hheight]; exact List.mem_range.mp hy), hwidth]
    rfl
  have hpicture := h.samePicture hw hrows
  have hbytes := (jobBytes_same_iff job [p] [page]).mpr (.cons hpicture .nil)
  obtain ⟨e', hrun', haccepted'⟩ := encodeJob_run enc job .accepting [p] hjob fun _ => rfl
  refine ⟨e, hrun, ?_⟩
  rw [haccepted, ← hbytes, hrun']
  exact congrArg (sink.accepted ++ ·) haccepted'.symm

/-- Decoding an encoded job and encoding its files.  Each file that the decode
command writes for the job is an input of the encode command, and gives the job
of its page: the same bytes as the page alone. -/
theorem encodeJob_again (e : Encoder) (job : QpdlJob) (sink : Sink) (pages : List Page)
    (hjob : job.refused = false) (hsink : ∀ n, sink.answer n = 0) (hempty : sink.accepted = [])
    (hu : job.Unmarked) (hdpi : job.dpi ≠ 1200) (pbmPrefix : Bytes) (heap : Heap UInt8)
    (hheap : heap.Succeeds) :
    let d := cmdDecode (decodeStart (some pbmPrefix) heap fun _ => true)
      (encodeJob e job sink pages).2.sink.accepted
    List.Forall₂ (fun q f => Reencodes job q.1 f) (inkedPages pages 1) d.files := by
  obtain ⟨e', hrun, hout⟩ := encodeJob_run e job sink pages hjob hsink
  rw [hempty, List.nil_append] at hout
  rw [hrun]
  dsimp only
  rw [hout]
  obtain ⟨-, -, hfiles⟩ := cmdDecode_jobBytes (QpdlJob.accepted hjob) hu pages pbmPrefix hheap
  have hinked : ∀ q ∈ inkedPages pages 1, inked q.1 = true := fun q hq =>
    (List.mem_filter.mp hq).2
  refine List.Forall₂.imp (fun q f h => ?_) ((List.forall₂_and_left _ _).mpr ⟨hinked, hfiles⟩)
  exact h.2.reencodes h.1 hjob hdpi

/-- The default job with a page of one row. -/
theorem encodeJob_again_small :
    let d := cmdDecode (decodeStart (some (ascii "out")) zeroHeap fun _ => true)
      (encodeJob { job := qpdlJobDefault, sink := .accepting } qpdlJobDefault .accepting
        [smallPage]).2.sink.accepted
    List.Forall₂ (fun q f => Reencodes qpdlJobDefault q.1 f) (inkedPages [smallPage] 1) d.files :=
  encodeJob_again _ qpdlJobDefault .accepting [smallPage] (by decide) (fun _ => rfl) rfl
    ⟨by decide, by decide⟩ (by decide) (ascii "out") zeroHeap zeroHeap_succeeds

end Airbridge.Cli
