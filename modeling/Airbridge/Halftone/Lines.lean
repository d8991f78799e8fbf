import Airbridge.Halftone.Halftone
import Airbridge.Lib.Bits
import Airbridge.Lib.Run

/-!
# Halftoned lines

A caller hands the lines of a page to one halftoner, each with its line number
and the buffer for its bits.  The module says which pixels a line blackens: a
screen blackens those whose ink is above the threshold there, and a line of
bits never loses a pixel that was set.

`Exact` is what is asked of the two ends of the ink scale, solid black and
paper white.
-/

namespace Airbridge.Halftone

open Airbridge.Qpdl (Bytes byteAt)

/-! ## Calls -/

/-- The arguments of one call of `m2022_halftone_line`. -/
structure HtCall where
  ink : Bytes
  y : Nat
  bits : Bytes
deriving Repr, DecidableEq

/-- The halftoner behind a call. -/
def halftoneStep (ht : Halftoner) (c : HtCall) : Halftoner := (halftoneLine ht c.ink c.y c.bits).1

/-- The bits a call leaves. -/
def halftoneBits (ht : Halftoner) (c : HtCall) : Bytes := (halftoneLine ht c.ink c.y c.bits).2

/-- The bits buffer holds a line of `width` pixels. -/
def HtCall.Fits (c : HtCall) (width : Nat) : Prop := (width + 7) / 8 ≤ c.bits.length

/-- Ink 255 is black and ink 0 is white, on a line of `width` pixels. -/
def Exact (ink : Bytes) (width : Nat) (bits : Bytes) : Prop :=
  ∀ x < width, (byteAt ink x = 255 → Bits.get bits x = true) ∧
    (byteAt ink x = 0 → Bits.get bits x = false)

/-! ## Single pixels -/

/-- The mask of `set_black` is the bit of its pixel. -/
theorem ofByte_blackMask {j k : Nat} (hj : j < 8) (hk : k < 8) :
    Bits.ofByte ((0x80 : UInt8) >>> UInt8.ofNat j) k = decide (j = k) := by
  have hmask : ∀ j k : Fin 8,
      Bits.ofByte ((0x80 : UInt8) >>> UInt8.ofNat j.val) k.val = decide (j.val = k.val) := by
    decide +kernel
  exact hmask ⟨j, hj⟩ ⟨k, hk⟩

theorem ofByte_or (a b : UInt8) (k : Nat) :
    Bits.ofByte (a ||| b) k = (Bits.ofByte a k || Bits.ofByte b k) := by
  rw [Bits.ofByte, UInt8.toNat_or, Nat.testBit_or]
  rfl

/-- Setting a pixel of the row sets that pixel and no other. -/
theorem get_setBlack {bits : Bytes} {x : Nat} (hx : x < 8 * bits.length) (y : Nat) :
    Bits.get (setBlack bits x) y = (decide (x = y) || Bits.get bits y) := by
  have hin : x / 8 < bits.length := by omega
  have hmod : y % 8 < 8 := Nat.mod_lt _ (by omega)
  unfold Bits.get setBlack byteAt
  rw [List.getD_eq_getElem?_getD, List.getElem?_set]
  by_cases hbyte : x / 8 = y / 8
  · rw [if_pos hbyte, if_pos hin, Option.getD_some, ofByte_or,
      ofByte_blackMask (Nat.mod_lt _ (by omega)) hmod, hbyte, Bool.or_comm]
    congr 1
    apply decide_eq_decide.mpr
    omega
  · have hne : ¬x = y := by
      intro h
      exact hbyte (by rw [h])
    rw [if_neg hbyte, ← List.getD_eq_getElem?_getD, decide_eq_false hne, Bool.false_or]

/-! ## Screens -/

/-- A screen blackens the pixels whose ink is above the threshold there, and
keeps those that were black. -/
theorem get_screenLine (ink : Bytes) {width : Nat} (threshold : Nat → UInt8) {bits : Bytes}
    (hbits : width ≤ 8 * bits.length) (y : Nat) :
    Bits.get (screenLine ink width threshold bits) y =
      (decide (y < width ∧ byteAt ink y > threshold y) || Bits.get bits y) := by
  unfold screenLine
  induction width with
  | zero => simp
  | succ width ih =>
    have hlen := length_screenLine ink width threshold bits
    unfold screenLine at hlen
    rw [List.range_succ, List.foldl_append, List.foldl_cons, List.foldl_nil]
    by_cases hdark : byteAt ink width > threshold width
    · rw [if_pos hdark, get_setBlack (by omega), ih (by omega), ← Bool.or_assoc, ← Bool.decide_or]
      congr 1
      apply decide_eq_decide.mpr
      constructor
      · rintro (rfl | ⟨hlt, hink⟩)
        · exact ⟨Nat.lt_succ_self _, hdark⟩
        · exact ⟨Nat.lt_succ_of_lt hlt, hink⟩
      · rintro ⟨hlt, hink⟩
        by_cases heq : width = y
        · exact .inl heq
        · exact .inr ⟨by omega, hink⟩
    · rw [if_neg hdark, ih (by omega)]
      congr 1
      apply decide_eq_decide.mpr
      constructor
      · rintro ⟨hlt, hink⟩
        exact ⟨Nat.lt_succ_of_lt hlt, hink⟩
      · rintro ⟨hlt, hink⟩
        have hne : y ≠ width := by
          rintro rfl
          exact hdark hink
        exact ⟨by omega, hink⟩

/-- A cleared buffer has no black pixel on the line. -/
theorem get_cleared {bits : Bytes} {width x : Nat} (hbits : (width + 7) / 8 ≤ bits.length)
    (hx : x < width) :
    Bits.get (Buffer.store bits 0 (List.replicate ((width + 7) / 8) 0)) x = false := by
  unfold Bits.get
  rw [List.getD_eq_getElem?_getD, Buffer.getElem?_store, List.length_replicate,
    if_pos ⟨Nat.zero_le _, by omega, by omega⟩, List.getElem?_replicate, if_pos (by omega),
    Option.getD_some, Bits.ofByte_zero]

/-- The buffer of a call, cleared, has a bit for every pixel. -/
theorem HtCall.Fits.room {c : HtCall} {width : Nat} (h : c.Fits width) :
    width ≤ 8 * (Buffer.store c.bits 0 (List.replicate ((width + 7) / 8) 0)).length := by
  unfold HtCall.Fits at h
  rw [Buffer.length_store]
  omega

/-- On a cleared buffer a screen is exact where no threshold is 255. -/
theorem screenLine_exact (ink : Bytes) {width : Nat} {threshold : Nat → UInt8} {bits : Bytes}
    (hbits : (width + 7) / 8 ≤ bits.length)
    (hthreshold : ∀ x < width, byteAt ink x = 255 → threshold x < 255) :
    Exact ink width
      (screenLine ink width threshold
        (Buffer.store bits 0 (List.replicate ((width + 7) / 8) 0))) := by
  intro x hx
  rw [get_screenLine ink threshold (by rw [Buffer.length_store]; omega), get_cleared hbits hx,
    Bool.or_false]
  constructor
  · intro hink
    rw [hink]
    exact decide_eq_true ⟨hx, hthreshold x hx hink⟩
  · intro hink
    rw [hink]
    exact decide_eq_false fun h => absurd h.2 (UInt8.not_lt_zero)

end Airbridge.Halftone
