import Mathlib.Data.List.GetD
import Mathlib.Tactic.SplitIfs

/-!
# Packed bits

A packed row holds one bit per pixel, eight to a byte, the first pixel in the
highest bit.  `get` reads the pixel at a position and `pack` writes a row of
`n` bytes from a pixel function.  The two undo each other, so a packed row is
the same thing as its pixels.
-/

namespace Bits

/-- Bit `k` of a byte, counted from the highest. -/
def ofByte (b : UInt8) (k : Nat) : Bool := b.toNat.testBit (7 - k)

/-- The byte with the bits `f 0` to `f 7`, the first one highest. -/
def toByte (f : Nat → Bool) : UInt8 :=
  UInt8.ofNat ((List.range 8).foldl (fun n k => 2 * n + (f k).toNat) 0)

/-- Pixel `x` of a packed row. -/
def get (row : List UInt8) (x : Nat) : Bool := ofByte (row.getD (x / 8) 0) (x % 8)

/-- The packed row of `n` bytes with the pixels `f`. -/
def pack (n : Nat) (f : Nat → Bool) : List UInt8 :=
  (List.range n).map fun i => toByte fun k => f (8 * i + k)

/-! ## One byte -/

/-- A property of every byte is checked on the 256 of them. -/
theorem forall_byte {P : UInt8 → Prop} (h : ∀ n : Fin 256, P (UInt8.ofNat n)) (b : UInt8) :
    P b := by
  have := h ⟨b.toNat, b.toNat_lt⟩
  simpa using this

theorem ofByte_toByte (f : Nat → Bool) {k : Nat} (hk : k < 8) : ofByte (toByte f) k = f k := by
  have hall : ∀ (b0 b1 b2 b3 b4 b5 b6 b7 : Bool) (k : Fin 8),
      ofByte (UInt8.ofNat (2 * (2 * (2 * (2 * (2 * (2 * (2 * (2 * 0 + b0.toNat) + b1.toNat)
        + b2.toNat) + b3.toNat) + b4.toNat) + b5.toNat) + b6.toNat) + b7.toNat)) k
        = [b0, b1, b2, b3, b4, b5, b6, b7].getD k false := by
    decide +kernel
  have h := hall (f 0) (f 1) (f 2) (f 3) (f 4) (f 5) (f 6) (f 7) ⟨k, hk⟩
  have hget : [f 0, f 1, f 2, f 3, f 4, f 5, f 6, f 7].getD k false = f k := by
    change ((List.range 8).map f).getD k false = f k
    rw [List.getD_eq_getElem?_getD, List.getElem?_map, List.getElem?_range hk]
    rfl
  exact h.trans hget

theorem toByte_ofByte (b : UInt8) : toByte (ofByte b) = b :=
  forall_byte (P := fun b => toByte (ofByte b) = b) (by decide +kernel) b

/-- Bytes with the same bits are the same byte. -/
theorem byte_ext {a b : UInt8} (h : ∀ k < 8, ofByte a k = ofByte b k) : a = b := by
  have htoByte : ∀ f g : Nat → Bool, (∀ k < 8, f k = g k) → toByte f = toByte g := by
    intro f g hfg
    simp only [toByte, List.range, List.range.loop, List.foldl_cons, List.foldl_nil]
    rw [hfg 0 (by omega), hfg 1 (by omega), hfg 2 (by omega), hfg 3 (by omega), hfg 4 (by omega),
      hfg 5 (by omega), hfg 6 (by omega), hfg 7 (by omega)]
  rw [← toByte_ofByte a, ← toByte_ofByte b, htoByte _ _ h]

@[simp] theorem ofByte_zero (k : Nat) : ofByte 0 k = false := by
  simp [ofByte]

/-- The mask that keeps the first `w` bits of a byte. -/
theorem ofByte_mask (b : UInt8) {w k : Nat} (hw : w < 8) (hk : k < 8) :
    ofByte (b &&& UInt8.ofNat (0xFF <<< (8 - w))) k = (decide (k < w) && ofByte b k) := by
  have hmask : ∀ w k : Fin 8, ofByte (UInt8.ofNat (0xFF <<< (8 - w.val))) k.val = decide (k < w) := by
    decide +kernel
  have h := hmask ⟨w, hw⟩ ⟨k, hk⟩
  rw [ofByte, UInt8.toNat_and, Nat.testBit_and, ← ofByte, ← ofByte, h, Bool.and_comm]
  rfl

/-! ## Rows -/

@[simp] theorem length_pack (n : Nat) (f : Nat → Bool) : (pack n f).length = n := by
  simp [pack]

theorem getD_pack (n : Nat) (f : Nat → Bool) (i : Nat) :
    (pack n f).getD i 0 = if i < n then toByte fun k => f (8 * i + k) else 0 := by
  rw [pack, List.getD_eq_getElem?_getD, List.getElem?_map]
  split_ifs with h
  · rw [List.getElem?_range h]
    rfl
  · rw [List.getElem?_eq_none (by simpa using h)]
    rfl

/-- A packed row has the pixels it was packed from. -/
theorem get_pack {n x : Nat} (f : Nat → Bool) (h : x < 8 * n) : get (pack n f) x = f x := by
  rw [get, getD_pack, if_pos (by omega), ofByte_toByte _ (by omega)]
  congr 1
  omega

/-- Rows of one length with the same pixels are the same row. -/
theorem row_ext {a b : List UInt8} (hlen : a.length = b.length)
    (h : ∀ x < 8 * a.length, get a x = get b x) : a = b := by
  apply List.ext_getElem hlen
  intro i hi _
  apply byte_ext
  intro k hk
  have hx := h (8 * i + k) (by omega)
  have hdiv : (8 * i + k) / 8 = i := by omega
  have hmod : (8 * i + k) % 8 = k := by omega
  rw [get, get, hdiv, hmod] at hx
  simpa [List.getD_eq_getElem?_getD, hi, hlen ▸ hi] using hx

/-- Past the end of a row the pixels are off. -/
theorem get_of_le {row : List UInt8} {x : Nat} (h : 8 * row.length ≤ x) : get row x = false := by
  rw [get, List.getD_eq_default _ _ (by omega), ofByte_zero]

/-- A row is all zero when no pixel is set. -/
theorem all_zero_iff (row : List UInt8) : (∀ b ∈ row, b = 0) ↔ ∀ x, get row x = false := by
  constructor
  · intro h x
    rw [get]
    by_cases hx : x / 8 < row.length
    · rw [List.getD_eq_getElem _ _ hx, h _ (List.getElem_mem hx), ofByte_zero]
    · rw [List.getD_eq_default _ _ (by omega), ofByte_zero]
  · intro h b hb
    obtain ⟨i, hi, rfl⟩ := List.mem_iff_getElem.mp hb
    apply byte_ext
    intro k hk
    have hx := h (8 * i + k)
    have hdiv : (8 * i + k) / 8 = i := by omega
    have hmod : (8 * i + k) % 8 = k := by omega
    rw [get, hdiv, hmod, List.getD_eq_getElem _ _ hi] at hx
    rw [hx, ofByte_zero]

end Bits
