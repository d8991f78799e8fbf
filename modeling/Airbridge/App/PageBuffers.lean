import Airbridge.App.Session

/-!
# The cache of the page buffers

`page_buffers` writes down the sizes of its blocks when all allocations have
succeeded, and takes the blocks it has for a page of these sizes.  A call that
fails has already replaced the blocks, but leaves the sizes of the latest
successful call: asked for these again, `page_buffers` returns true over blocks
of which at least one is null.
-/

namespace Airbridge.App

open Airbridge.Qpdl Airbridge.Halftone Memory

/-! ## Blocks -/

/-- All blocks are there, large enough for a page of these widths. -/
structure JobT.Holds (j : JobT) (rasterWidth width : Nat) : Prop where
  grayFull : ∃ block, j.grayFull = some block ∧ rasterWidth ≤ block.length
  gray : ∃ block, j.gray = some block ∧ width ≤ block.length
  ink : ∃ block, j.ink = some block ∧ width ≤ block.length
  bits : ∃ block, j.bits = some block ∧ (width + 7) / 8 ≤ block.length
  /-- A cell is an `int16_t`. -/
  htState : ∃ cells, j.htState = some cells ∧ halftonerStateBytes width ≤ 2 * cells.length
  workspace : ∃ block, j.workspace = some block ∧ qpdlEncoderWorkspaceBytes width ≤ block.length

theorem JobT.Fits.holds {j : JobT} {rasterWidth width : Nat} (h : j.Fits rasterWidth width) :
    j.Holds rasterWidth width := by
  have hblock {o : Option Bytes} {n : Nat} (ho : o.map List.length = some n) :
      ∃ block, o = some block ∧ n ≤ block.length := by
    obtain ⟨block, hblock, hlen⟩ := Option.map_eq_some_iff.mp ho
    exact ⟨block, hblock, hlen.ge⟩
  refine ⟨hblock h.grayFull, hblock h.gray, hblock h.ink, hblock h.bits, ?_, h.workspace⟩
  obtain ⟨cells, hcells, hlen⟩ := Option.map_eq_some_iff.mp h.htState
  refine ⟨cells, hcells, ?_⟩
  rw [hlen, halftonerStateBytes]
  omega

theorem JobT.Holds.not_hasNull {j : JobT} {rasterWidth width : Nat} (h : j.Holds rasterWidth width) :
    ¬j.HasNull := by
  obtain ⟨grayFull, hgrayFull, -⟩ := h.grayFull
  obtain ⟨gray, hgray, -⟩ := h.gray
  obtain ⟨ink, hink, -⟩ := h.ink
  obtain ⟨bits, hbits, -⟩ := h.bits
  obtain ⟨cells, hcells, -⟩ := h.htState
  obtain ⟨workspace, hworkspace, -⟩ := h.workspace
  simp [JobT.HasNull, hgrayFull, hgray, hink, hbits, hcells, hworkspace]

/-! ## Calls -/

structure PageCall where
  rasterWidth : Nat
  width : Nat
deriving Repr, DecidableEq

/-- What became of the calls so far. -/
structure CallLog where
  /-- The latest call that returned true. -/
  last : Option PageCall := none
  /-- The latest call returned false. -/
  failed : Bool := false

abbrev LoggedJob := JobT × CallLog

def callStep (s : LoggedJob) (call : PageCall) : LoggedJob :=
  let r := pageBuffers s.1 call.rasterWidth call.width
  (r.2, if r.1 then ⟨some call, false⟩ else { s.2 with failed := true })

/-- A call that returns true leaves buffers that fit its page. -/
def TrueHolds (s : LoggedJob) (call : PageCall) : Prop :=
  (pageBuffers s.1 call.rasterWidth call.width).1 = true →
    (pageBuffers s.1 call.rasterWidth call.width).2.Holds call.rasterWidth call.width

/-- Behind a failed call, the sizes are not those of the latest call that
returned true. -/
def AsksAnew (s : LoggedJob) (call : PageCall) : Prop :=
  ¬(s.2.failed = true ∧ s.2.last = some call)

/-- The sizes in the cache are those of the latest call that returned true, and
the blocks have these sizes unless a call has failed since. -/
structure Cached (s : LoggedJob) : Prop where
  sizes : s.2.last = (if s.1.allocRasterWidth = 0 then none
    else some ⟨s.1.allocRasterWidth, s.1.allocWidth⟩)
  holds : s.2.failed = false → s.2.last ≠ none → s.1.Holds s.1.allocRasterWidth s.1.allocWidth
  hasNull : s.2.failed = true → s.1.HasNull

/-- The cached sizes are those of a page exactly when the latest call that
returned true was for such a page. -/
theorem cached_iff {s : LoggedJob} (hs : Cached s) {call : PageCall} (hpos : 0 < call.rasterWidth) :
    s.1.allocRasterWidth = call.rasterWidth ∧ s.1.allocWidth = call.width ↔
      s.2.last = some call := by
  rw [hs.sizes]
  split_ifs with hzero
  · refine iff_of_false ?_ not_false
    rintro ⟨hraster, -⟩
    omega
  · rw [Option.some_inj, PageCall.mk.injEq]

theorem trueHolds_iff {s : LoggedJob} (hs : Cached s) {call : PageCall}
    (hpos : 0 < call.rasterWidth) : TrueHolds s call ↔ AsksAnew s call := by
  have hcached := cached_iff hs hpos
  unfold TrueHolds AsksAnew
  rcases pageBuffers_cases s.1 call.rasterWidth call.width with
    ⟨hsame, heq⟩ | ⟨hnew, ⟨-, heq⟩ | ⟨hnull, heq⟩⟩
  · have hlast := hcached.mp hsame
    rw [heq, ← hsame.1, ← hsame.2]
    constructor
    · rintro hholds ⟨hfailed, -⟩
      exact (hholds rfl).not_hasNull (hs.hasNull hfailed)
    · intro hanew _
      refine hs.holds ?_ (by rw [hlast]; exact Option.some_ne_none call)
      rw [← Bool.not_eq_true]
      exact fun hfailed => hanew ⟨hfailed, hlast⟩
  · rw [heq]
    refine iff_of_true (fun h => absurd h Bool.false_ne_true) ?_
    rintro ⟨-, hlast⟩
    exact hnew (hcached.mpr hlast)
  · rw [heq]
    refine iff_of_true (fun _ => ?_) ?_
    · exact (allocated_fits hnull).sized.holds
    · rintro ⟨-, hlast⟩
      exact hnew (hcached.mpr hlast)

/-- A call keeps the cache truthful if it does not ask a failed cache. -/
theorem cached_step {s : LoggedJob} (hs : Cached s) {call : PageCall} (hpos : 0 < call.rasterWidth)
    (hanew : AsksAnew s call) : Cached (callStep s call) := by
  have hcached := cached_iff hs hpos
  unfold callStep
  rcases pageBuffers_cases s.1 call.rasterWidth call.width with
    ⟨hsame, heq⟩ | ⟨hnew, ⟨hnull, heq⟩ | ⟨hnull, heq⟩⟩
  · have hlast := hcached.mp hsame
    have hok : s.2.failed = false := by
      rw [← Bool.not_eq_true]
      exact fun hfailed => hanew ⟨hfailed, hlast⟩
    rw [heq]
    refine ⟨?_, ?_, fun h => absurd h Bool.false_ne_true⟩
    · rw [← hs.sizes]
      exact hlast.symm
    · intro _ _
      exact hs.holds hok (by rw [hlast]; exact Option.some_ne_none call)
  · rw [heq]
    exact ⟨hs.sizes, fun h => absurd h.symm Bool.false_ne_true, fun _ => hnull⟩
  · rw [heq]
    refine ⟨?_, ?_, fun h => absurd h Bool.false_ne_true⟩
    · exact (if_neg (Nat.pos_iff_ne_zero.mp hpos)).symm
    · intro _ _
      exact (allocated_fits hnull).sized.holds

/-- The job before its first page. -/
def jobStart (host : Host) (heap : Heap UInt8) (enc : Encoder) : JobT :=
  { host := host, heap := heap, enc := enc }

/-- Whatever the allocator answers, every call for a page that returns true
leaves buffers that fit the page, if and only if no call behind a failed one
asks for the sizes of the latest call that returned true. -/
theorem pageBuffers_holds_iff (host : Host) (heap : Heap UInt8) (enc : Encoder)
    (calls : List PageCall) (hpos : ∀ call ∈ calls, 0 < call.rasterWidth ∧ 0 < call.width) :
    Run.Every callStep TrueHolds (jobStart host heap enc, {}) calls ↔
      Run.Every callStep AsksAnew (jobStart host heap enc, {}) calls := by
  have hstart : Cached (jobStart host heap enc, {}) :=
    ⟨rfl, fun _ h => absurd rfl h, fun h => absurd h Bool.false_ne_true⟩
  refine Run.every_iff_of_mem ?_ ?_ hstart
  · intro s call hcall hs
    exact trueHolds_iff hs (hpos call hcall).1
  · intro s call hcall hs hanew
    exact cached_step hs (hpos call hcall).1 hanew

/-- A page, a larger one, and one like the first. -/
def threePages : List PageCall := [⟨1, 1⟩, ⟨2, 2⟩, ⟨1, 1⟩]

/-- Three pages with enough memory. -/
theorem pageBuffers_holds_iff_threePages :
    Run.Every callStep TrueHolds (jobStart sampleHost zeroHeap (zeroEncoder .accepting), {})
        threePages ↔
      Run.Every callStep AsksAnew (jobStart sampleHost zeroHeap (zeroEncoder .accepting), {})
        threePages :=
  pageBuffers_holds_iff sampleHost zeroHeap (zeroEncoder .accepting) threePages (by decide)

/-- An allocator whose seventh call fails. -/
def failOnce : Heap UInt8 where
  answer := fun n size => if n = 6 then none else some (List.replicate size 0)
  length_eq := by
    intro n size block h
    split_ifs at h
    rw [← Option.some_inj.mp h, List.length_replicate]
  calls := 0

/-- The first page gets its blocks and the second does not.  For the third the
call returns true, and `gray_full` is null. -/
theorem failOnce_null :
    ¬Run.Every callStep TrueHolds (jobStart sampleHost failOnce (zeroEncoder .accepting), {})
      threePages := by
  rintro ⟨-, -, hthird, -⟩
  obtain ⟨block, hblock, -⟩ := (hthird rfl).grayFull
  exact absurd hblock (Option.some_ne_none block).symm

end Airbridge.App
