import Airbridge.Halftone.BlueNoise
import Airbridge.Lib.Buffer
import Airbridge.Qpdl.Records
import Mathlib.Data.Int.Bitwise
import Mathlib.Data.List.ProdSigma

/-!
# Halftoning

`halftone.c`: lines of ink become lines of packed bits, with one of six
methods.  Error diffusion keeps two rows of 16-bit errors in a block the
caller provides; the block is a list of cells, and the two row pointers are
offsets into it.

A clustered screen ranks its cells by a key in floating point.  The model has
the key as an exact number, times 1600, over distances in quarters of a pixel.
-/

namespace Airbridge.Halftone

open Airbridge.Qpdl (Bytes byteAt)

/-! ## Ordered matrices -/

/-- One doubling of the Bayer matrix: every cell of the `s` by `s` corner
becomes four. -/
def bayerStep (n s : Nat) (m : List UInt8) : List UInt8 :=
  (List.range s ×ˢ List.range s).foldl (fun m (y, x) =>
    let v := m.getD (y * n + x) 0
    (((m.set (y * n + x) (4 * v)).set (y * n + x + s) (4 * v + 2)).set ((y + s) * n + x)
      (4 * v + 3)).set ((y + s) * n + x + s) (4 * v + 1)) m

/-- The values of the loop `for (s = 1; s < n; s *= 2)`. -/
def bayerSizes (n : Nat) : List Nat := ((List.range n).map (2 ^ ·)).takeWhile (· < n)

def bayer (n : Nat) (m : List UInt8) : List UInt8 :=
  (bayerSizes n).foldl (fun m s => bayerStep n s m) (m.set 0 0)

/-- A distance on the torus of side `c`, in quarters.  `c` is unsigned, so that
`-c / 2.0` is close to `2 ^ 31` and the second test always holds. -/
def toroidal (c : Nat) (d : Int) : Int :=
  let d := if d > 2 * c then d - 4 * c else d
  if d < 2 * ((2 ^ 32 - c) % 2 ^ 32 : Nat) then d + 4 * c else d

/-- The key of cell `i` for a dot, times 1600: `d * 1000 + (dx * 0.37 + dy *
0.11)` over distances in quarters. -/
def clusterKey (c dot i : Nat) : Int :=
  let centre : Int := if dot = 0 then c else 3 * c
  let dx := toroidal c (4 * (i % c : Nat) + 2 - centre)
  let dy := toroidal c (4 * (i / c : Nat) + 2 - centre)
  100000 * (dx * dx + dy * dy) + (148 * dx + 44 * dy)

/-- The free cell with the smallest key, the first of several. -/
def nearestFree (c dot : Nat) (taken : List Bool) : Nat :=
  ((List.range (c * c)).foldl (fun (best : Option Int × Nat) i =>
    if taken.getD i false then best
    else
      let key := clusterKey c dot i
      if best.1.all (key < ·) then (some key, i) else best) (none, 0)).2

def clustered (c : Nat) (m : List UInt8) : List UInt8 :=
  ((List.range (c * c)).foldl (fun (s : List Bool × List UInt8) rank =>
    let bi := nearestFree c (rank % 2) s.1
    (s.1.set bi true, s.2.set bi (UInt8.ofNat rank))) (List.replicate 256 false, m)).2

/-- Ranks below `levels` become thresholds. -/
def scaleMatrix (m : List UInt8) (n levels : Nat) : List UInt8 :=
  m.mapIdx fun i v => if i < n then UInt8.ofNat ((2 * v.toNat + 1) * 256 / (2 * levels)) else v

/-! ## The halftoner -/

/-- `m2022_ht_method_t`. -/
inductive HtMethod where
  | threshold
  | bayer4
  | bayer8
  | clustered
  | blueNoise
  | floydSteinberg
deriving Repr, DecidableEq

structure HtParams where
  method : HtMethod
  threshold : UInt8
  clusterCell : UInt8
deriving Repr, DecidableEq

def htDefault (method : HtMethod) : HtParams := ⟨method, 127, 8⟩

/-- `m2022_halftoner_t`, with the block behind its row pointers. -/
structure Halftoner where
  params : HtParams
  width : Nat
  matrix : List UInt8 := List.replicate 256 0
  cell : Nat := 0
  state : List Int := []
  errCur : Option Nat := none
  errNext : Option Nat := none
deriving Repr, DecidableEq

def halftonerStateBytes (width : Nat) : Nat := 2 * (width + 2) * 2

/-- A block of bytes as `int16_t` cells, low byte first. -/
def int16Cells : Bytes → List Int
  | b0 :: b1 :: rest => Int.bmod (b0.toNat + 256 * b1.toNat) 65536 :: int16Cells rest
  | _ => []

def halftonerReset (ht : Halftoner) : Halftoner :=
  match ht.errCur with
  | none => ht
  | some cur =>
    { ht with state := Buffer.store ht.state cur (List.replicate (2 * (ht.width + 2)) 0) }

def halftonerInit (p : HtParams) (width : Nat) (state : Option (List Int)) : Int × Halftoner :=
  let ht : Halftoner := { params := p, width := width }
  match p.method with
  | .bayer4 => (0, { ht with cell := 4, matrix := scaleMatrix (bayer 4 ht.matrix) 16 16 })
  | .bayer8 => (0, { ht with cell := 8, matrix := scaleMatrix (bayer 8 ht.matrix) 64 64 })
  | .clustered =>
    let c := if 4 ≤ p.clusterCell.toNat ∧ p.clusterCell.toNat ≤ 16 then p.clusterCell.toNat else 8
    (0, { ht with cell := c, matrix := scaleMatrix (clustered c ht.matrix) (c * c) (c * c) })
  | .floydSteinberg =>
    match state with
    | none => (-1, ht)
    | some state =>
      if 2 * state.length < halftonerStateBytes width then (-1, ht)
      else
        (0, halftonerReset { ht with
          state := state
          errCur := some 0
          errNext := some (width + 2) })
  | .threshold | .blueNoise => (0, ht)

/-! ## Lines -/

def setBlack (bits : Bytes) (x : Nat) : Bytes :=
  bits.set (x / 8) (byteAt bits (x / 8) ||| (0x80 : UInt8) >>> UInt8.ofNat (x % 8))

/-- The loop that sets the pixels an ink line is dark enough for. -/
def screenLine (ink : Bytes) (width : Nat) (threshold : Nat → UInt8) (bits : Bytes) : Bytes :=
  (List.range width).foldl (fun bits x =>
    if byteAt ink x > threshold x then setBlack bits x else bits) bits

/-- `cells[i] = (int16_t)(cells[i] + d)`. -/
def addError (cells : List Int) (i : Nat) (d : Int) : List Int :=
  cells.set i (Int.bmod (cells.getD i 0 + d) 65536)

/-- One pixel of the error diffusion; `cur` and `next` are the offsets of the
two rows. -/
def diffusePixel (ink : Bytes) (reverse : Bool) (cur next : Nat) (s : List Int × Bytes) (x : Nat) :
    List Int × Bytes :=
  let ahead := if reverse then x else x + 2
  let behind := if reverse then x + 2 else x
  let v : Int := (byteAt ink x).toNat + s.1.getD (cur + (x + 1)) 0
  let out : Int := if v ≥ 128 then 255 else 0
  let err := v - out
  let cells := addError s.1 (cur + ahead) ((err * 7).tdiv 16)
  let cells := addError cells (next + behind) ((err * 3).tdiv 16)
  let cells := addError cells (next + (x + 1)) ((err * 5).tdiv 16)
  let cells := addError cells (next + ahead) ((err * 1).tdiv 16)
  (cells, if out ≠ 0 then setBlack s.2 x else s.2)

def floydSteinberg (ht : Halftoner) (ink : Bytes) (y : Nat) (bits : Bytes) : Halftoner × Bytes :=
  let cur := ht.errCur.getD 0
  let next := ht.errNext.getD 0
  let w := ht.width
  let reverse := y % 2 ≠ 0
  let xs := (List.range w).map fun i => if reverse then w - 1 - i else i
  let cleared := Buffer.store ht.state next (List.replicate (w + 2) 0)
  let s := xs.foldl (diffusePixel ink reverse cur next) (cleared, bits)
  ({ ht with state := s.1, errCur := some next, errNext := some cur }, s.2)

def halftoneLine (ht : Halftoner) (ink : Bytes) (y : Nat) (bits : Bytes) : Halftoner × Bytes :=
  let w := ht.width
  let bits := Buffer.store bits 0 (List.replicate ((w + 7) / 8) 0)
  match ht.params.method with
  | .threshold => (ht, screenLine ink w (fun _ => ht.params.threshold) bits)
  | .bayer4 | .bayer8 | .clustered =>
    let row := y % ht.cell * ht.cell
    (ht, screenLine ink w (fun x => ht.matrix.getD (row + x % ht.cell) 0) bits)
  | .blueNoise =>
    let row := bluenoise64.getD (y % 64) []
    (ht, screenLine ink w (fun x => UInt8.ofNat (row.getD (x % 64) 0)) bits)
  | .floydSteinberg => floydSteinberg ht ink y bits

/-! ## Presets -/

/-- `m2022_preset_t`. -/
inductive Preset where
  | draft
  | normal
  | text
  | photo
  | vendor
deriving Repr, DecidableEq

/-- The halftone parameters of a preset. -/
def preset : Preset → HtParams
  | .draft => htDefault .bayer8
  | .text => { htDefault .threshold with threshold := 96 }
  | .photo => htDefault .floydSteinberg
  | .vendor => { htDefault .clustered with clusterCell := 8 }
  | .normal => htDefault .blueNoise

/-! ## What a line leaves alone -/

@[simp] theorem length_setBlack (bits : Bytes) (x : Nat) : (setBlack bits x).length = bits.length :=
  List.length_set

theorem length_screenLine (ink : Bytes) (width : Nat) (threshold : Nat → UInt8) (bits : Bytes) :
    (screenLine ink width threshold bits).length = bits.length := by
  unfold screenLine
  generalize List.range width = xs
  induction xs generalizing bits with
  | nil => rfl
  | cons x xs ih =>
    rw [List.foldl_cons, ih]
    split_ifs
    · exact length_setBlack bits x
    · rfl

theorem length_diffusePixel (ink : Bytes) (reverse : Bool) (cur next : Nat) (s : List Int × Bytes)
    (x : Nat) :
    (diffusePixel ink reverse cur next s x).1.length = s.1.length ∧
      (diffusePixel ink reverse cur next s x).2.length = s.2.length := by
  unfold diffusePixel addError
  constructor
  · simp only [List.length_set]
  · dsimp only
    split_ifs
    · exact length_setBlack s.2 x
    · rfl
    · exact length_setBlack s.2 x
    · rfl

theorem length_diffuse (ink : Bytes) (reverse : Bool) (cur next : Nat) (xs : List Nat)
    (s : List Int × Bytes) :
    (xs.foldl (diffusePixel ink reverse cur next) s).1.length = s.1.length ∧
      (xs.foldl (diffusePixel ink reverse cur next) s).2.length = s.2.length := by
  induction xs generalizing s with
  | nil => exact ⟨rfl, rfl⟩
  | cons x xs ih =>
    obtain ⟨hcells, hbits⟩ := ih (diffusePixel ink reverse cur next s x)
    obtain ⟨hcells1, hbits1⟩ := length_diffusePixel ink reverse cur next s x
    exact ⟨hcells.trans hcells1, hbits.trans hbits1⟩

/-- A line fills its buffer and keeps the size of the error block. -/
theorem length_halftoneLine (ht : Halftoner) (ink : Bytes) (y : Nat) (bits : Bytes) :
    (halftoneLine ht ink y bits).2.length = bits.length ∧
      (halftoneLine ht ink y bits).1.state.length = ht.state.length := by
  unfold halftoneLine
  dsimp only
  split
  · exact ⟨by rw [length_screenLine, Buffer.length_store], rfl⟩
  · exact ⟨by rw [length_screenLine, Buffer.length_store], rfl⟩
  · exact ⟨by rw [length_screenLine, Buffer.length_store], rfl⟩
  · exact ⟨by rw [length_screenLine, Buffer.length_store], rfl⟩
  · exact ⟨by rw [length_screenLine, Buffer.length_store], rfl⟩
  · unfold floydSteinberg
    obtain ⟨hcells, hbits⟩ := length_diffuse ink (decide (y % 2 ≠ 0)) (ht.errCur.getD 0)
      (ht.errNext.getD 0) ((List.range ht.width).map fun i =>
        if y % 2 ≠ 0 then ht.width - 1 - i else i)
      (Buffer.store ht.state (ht.errNext.getD 0) (List.replicate (ht.width + 2) 0),
        Buffer.store bits 0 (List.replicate ((ht.width + 7) / 8) 0))
    rw [Buffer.length_store] at hcells hbits
    exact ⟨hbits, hcells⟩

/-- The bits a line leaves do not depend on what their buffer held. -/
theorem halftoneLine_bits (ht : Halftoner) (ink : Bytes) (y : Nat) {bits : Bytes}
    (h : bits.length = (ht.width + 7) / 8) :
    halftoneLine ht ink y bits =
      halftoneLine ht ink y (List.replicate ((ht.width + 7) / 8) 0) := by
  unfold halftoneLine
  dsimp only
  rw [Buffer.store_zero (by rw [List.length_replicate, h]), Buffer.store_zero rfl]

/-! ## A halftoner for a page -/

/-- A halftoner for lines of `width` pixels, over an error block of the size
they need when the method diffuses errors. -/
structure Halftoner.Fits (ht : Halftoner) (width : Nat) : Prop where
  width_eq : ht.width = width
  errCur : ht.params.method = .floydSteinberg → ht.errCur.isSome = true
  length_state : ht.errCur.isSome = true → ht.state.length = 2 * (width + 2)

theorem halftoneLine_fits {ht : Halftoner} {width : Nat} (h : ht.Fits width) (ink : Bytes)
    (y : Nat) (bits : Bytes) : (halftoneLine ht ink y bits).1.Fits width := by
  have hlen := (length_halftoneLine ht ink y bits).2
  cases hm : ht.params.method with
  | floydSteinberg =>
    have hline : (halftoneLine ht ink y bits).1 = (floydSteinberg ht ink y
        (Buffer.store bits 0 (List.replicate ((ht.width + 7) / 8) 0))).1 := by
      unfold halftoneLine
      rw [hm]
    rw [hline] at hlen ⊢
    exact ⟨h.width_eq, fun _ => rfl, fun _ => hlen.trans (h.length_state (h.errCur hm))⟩
  | _ =>
    have hline : (halftoneLine ht ink y bits).1 = ht := by
      unfold halftoneLine
      rw [hm]
    rw [hline]
    exact h

/-- A halftoner over a clear error block. -/
def freshHalftoner (p : HtParams) (width : Nat) : Halftoner :=
  (halftonerInit p width (some (List.replicate (2 * (width + 2)) 0))).2

/-- Over a block of the right size `m2022_halftoner_init` succeeds and leaves a
fresh halftoner, whatever the block held. -/
theorem halftonerInit_fresh (p : HtParams) {width : Nat} {state : List Int}
    (h : state.length = 2 * (width + 2)) :
    halftonerInit p width (some state) = (0, freshHalftoner p width) := by
  have hroom (n : Nat) (hn : n = 2 * (width + 2)) : ¬2 * n < halftonerStateBytes width := by
    unfold halftonerStateBytes
    omega
  unfold freshHalftoner halftonerInit
  cases hm : p.method with
  | floydSteinberg =>
    dsimp only
    rw [if_neg (hroom _ h), if_neg (hroom _ List.length_replicate)]
    unfold halftonerReset
    dsimp only
    rw [Buffer.store_zero (by rw [List.length_replicate, h]), Buffer.store_zero rfl]
  | _ => rfl

theorem freshHalftoner_fits (p : HtParams) (width : Nat) : (freshHalftoner p width).Fits width := by
  have hroom : ¬2 * (List.replicate (2 * (width + 2)) (0 : Int)).length <
      halftonerStateBytes width := by
    unfold halftonerStateBytes
    rw [List.length_replicate]
    omega
  unfold freshHalftoner halftonerInit
  cases hm : p.method with
  | floydSteinberg =>
    dsimp only
    rw [if_neg hroom]
    refine ⟨rfl, fun _ => rfl, fun _ => ?_⟩
    unfold halftonerReset
    dsimp only
    rw [Buffer.length_store, List.length_replicate]
  | _ =>
    exact ⟨rfl, fun h => absurd (hm.symm.trans h) (by decide),
      fun h => absurd (show false = true from h) (by decide)⟩

@[simp] theorem length_int16Cells (bytes : Bytes) :
    (int16Cells bytes).length = bytes.length / 2 := by
  fun_induction int16Cells bytes with
  | case1 b0 b1 rest ih =>
    simp only [List.length_cons, ih]
    omega
  | case2 bytes h =>
    match bytes, h with
    | [], _ => rfl
    | [b], _ => simp
    | b0 :: b1 :: rest, h => exact absurd rfl (h b0 b1 rest)

end Airbridge.Halftone
