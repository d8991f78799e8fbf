import Airbridge.Halftone.Diffusion
import Airbridge.Lib.Memory

/-!
# Starting a new page

`m2022_halftoner_reset` clears both error rows, from the row `err_cur` points
at.  Every line swaps the two rows, so `err_cur` is the start of the block
after an even number of lines and its middle after an odd number.
-/

namespace Airbridge.Halftone

open Airbridge.Qpdl (Bytes)

/-- What `m2022_halftoner_reset` writes to the error block. -/
def resetAccesses (ht : Halftoner) : List Memory.Access :=
  match ht.errCur with
  | none => []
  | some cur => [⟨cur, 2 * (ht.width + 2), ht.state.length⟩]

/-- The bits of a page of lines. -/
def halftonePage (ht : Halftoner) : List HtCall → List Bytes
  | [] => []
  | c :: cs => halftoneBits ht c :: halftonePage (halftoneStep ht c) cs

/-- An error-diffusing halftoner whose current row starts at `cur` and whose
next one starts at `next`. -/
def diffusingHalftoner (p : HtParams) (width cur next : Nat) (state : List Int) : Halftoner :=
  { params := p
    width := width
    state := state
    errCur := some cur
    errNext := some next }

/-- A line swaps the rows and keeps the size of the block. -/
theorem halftoneStep_diffusing {p : HtParams} (hm : p.method = .floydSteinberg)
    (width cur next : Nat) (state : List Int) (c : HtCall) :
    ∃ state', state'.length = state.length ∧
      halftoneStep (diffusingHalftoner p width cur next state) c =
        diffusingHalftoner p width next cur state' := by
  have hlen := (length_halftoneLine (diffusingHalftoner p width cur next state) c.ink c.y c.bits).2
  have hline := @halftoneLine_diffuse (diffusingHalftoner p width cur next state) width hm rfl c
  unfold halftoneStep
  rw [hline, floydSteinberg_eq] at hlen ⊢
  exact ⟨_, hlen, rfl⟩

/-- Behind a run the rows are where they were after an even number of lines,
and swapped after an odd number. -/
theorem run_diffusing {p : HtParams} (hm : p.method = .floydSteinberg) (width cur next : Nat)
    (state : List Int) (calls : List HtCall) :
    ∃ state', state'.length = state.length ∧
      Run.run halftoneStep (diffusingHalftoner p width cur next state) calls =
        if calls.length % 2 = 0 then diffusingHalftoner p width cur next state'
        else diffusingHalftoner p width next cur state' := by
  induction calls generalizing cur next state with
  | nil => exact ⟨state, rfl, rfl⟩
  | cons c calls ih =>
    obtain ⟨state1, hlen1, hstep⟩ := halftoneStep_diffusing hm width cur next state c
    obtain ⟨state2, hlen2, hrun⟩ := ih next cur state1
    refine ⟨state2, hlen2.trans hlen1, ?_⟩
    rw [Run.run_cons, hstep, hrun, List.length_cons]
    by_cases heven : calls.length % 2 = 0
    · rw [if_pos heven, if_neg (by omega)]
    · rw [if_neg heven, if_pos (by omega)]

/-- `m2022_halftoner_init` over a block of exactly the bytes it asks for. -/
theorem halftonerInit_diffusing {p : HtParams} (hm : p.method = .floydSteinberg) {width : Nat}
    {block : List Int} (hblock : 2 * block.length = halftonerStateBytes width) :
    halftonerInit p width (some block) =
      (0, diffusingHalftoner p width 0 (width + 2) (List.replicate block.length 0)) := by
  have hlen : block.length = 2 * (width + 2) := by
    unfold halftonerStateBytes at hblock
    omega
  unfold halftonerInit
  rw [hm]
  dsimp only
  rw [if_neg (by omega)]
  unfold halftonerReset
  dsimp only
  rw [Buffer.store_zero (by rw [List.length_replicate, hlen]), ← hlen]
  rfl

/-- Resetting starts a new page, and stays inside the block, if and only if the
number of lines before it is even. -/
theorem reset_iff (p : HtParams) (hm : p.method = .floydSteinberg) (width : Nat)
    (block : List Int) (hblock : 2 * block.length = halftonerStateBytes width)
    (before : List HtCall) :
    let fresh := (halftonerInit p width (some block)).2
    let ht := Run.run halftoneStep fresh before
    ((∀ a ∈ resetAccesses ht, a.Inside) ∧
        ∀ later, halftonePage (halftonerReset ht) later = halftonePage fresh later) ↔
      before.length % 2 = 0 := by
  intro fresh ht
  have hlen : block.length = 2 * (width + 2) := by
    unfold halftonerStateBytes at hblock
    omega
  have hfresh : fresh = diffusingHalftoner p width 0 (width + 2)
      (List.replicate block.length 0) := by
    show (halftonerInit p width (some block)).2 = _
    rw [halftonerInit_diffusing hm hblock]
  obtain ⟨state, hstate, hht⟩ := run_diffusing hm width 0 (width + 2)
    (List.replicate block.length 0) before
  rw [← hfresh] at hht
  rw [List.length_replicate, hlen] at hstate
  by_cases heven : before.length % 2 = 0
  · have hht' : ht = diffusingHalftoner p width 0 (width + 2) state := by
      rw [if_pos heven] at hht
      exact hht
    refine ⟨fun _ => heven, fun _ => ⟨?_, fun later => ?_⟩⟩
    · intro a ha
      rw [hht'] at ha
      rw [List.mem_singleton.mp ha]
      show 0 + 2 * (width + 2) ≤ state.length
      omega
    · have hstore : Buffer.store state 0 (List.replicate (2 * (width + 2)) 0) =
          List.replicate (2 * (width + 2)) 0 :=
        Buffer.store_zero (by rw [List.length_replicate, hstate])
      have hreset : halftonerReset ht = fresh := by
        rw [hht', hfresh, hlen, ← hstore]
        rfl
      rw [hreset]
  · have hht' : ht = diffusingHalftoner p width (width + 2) 0 state := by
      rw [if_neg heven] at hht
      exact hht
    refine ⟨fun h => ?_, fun h => absurd h heven⟩
    have hinside : width + 2 + 2 * (width + 2) ≤ state.length := by
      refine h.1 ⟨width + 2, 2 * (width + 2), state.length⟩ ?_
      rw [hht']
      exact List.mem_singleton.mpr rfl
    omega

/-- An even page: two lines of one pixel. -/
theorem reset_iff_two :
    let fresh := (halftonerInit (htDefault .floydSteinberg) 1 (some (List.replicate 6 0))).2
    let ht := Run.run halftoneStep fresh [⟨[200], 0, [0]⟩, ⟨[200], 1, [0]⟩]
    ((∀ a ∈ resetAccesses ht, a.Inside) ∧
        ∀ later, halftonePage (halftonerReset ht) later = halftonePage fresh later) ↔ 2 % 2 = 0 :=
  reset_iff (htDefault .floydSteinberg) rfl 1 (List.replicate 6 0) (by decide)
    [⟨[200], 0, [0]⟩, ⟨[200], 1, [0]⟩]

/-- After one line of one pixel, the twelve bytes cleared start in the middle
of the block. -/
theorem reset_outside :
    let fresh := (halftonerInit (htDefault .floydSteinberg) 1 (some (List.replicate 6 0))).2
    let ht := Run.run halftoneStep fresh [⟨[200], 0, [0]⟩]
    ¬∀ a ∈ resetAccesses ht, a.Inside := by
  decide

end Airbridge.Halftone
