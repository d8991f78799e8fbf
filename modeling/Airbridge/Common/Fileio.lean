import Airbridge.Lib.CString
import Airbridge.Qpdl.Records

/-!
# Reading files

`m2022_read_file` and the parser of portable anymaps (`common/fileio.c`).

zlib is outside: what its calls yield is a parameter, bar the limit it
documents.  A request whose length does not fit an `int` fails, which is why no
file of 2 GiB is ever loaded, and why the sum in the size check of the parser
does not wrap.
-/

namespace Airbridge.Common

open Airbridge.Qpdl (Bytes byteAt)
open CString (isDigit)

/-! ## Files -/

/-- A file: whether `gzopen` opens it, and the bytes that are there at each
`gzread`, `none` where the call reports an error. -/
structure GzFile where
  opens : Bool
  answers : List (Option Bytes)
deriving Repr, DecidableEq

/-- `gzread` with a request of `len` bytes. -/
def gzread (answer : Option Bytes) (len : Nat) : Option Bytes :=
  if len ≥ 2 ^ 31 then none else answer.map (List.take len)

/-- One pass of the loop over a buffer of `cap` bytes that holds `buf`: the
capacity and what was read.  `grants` tells which sizes `malloc` and `realloc`
can give. -/
def readPass (grants : Nat → Bool) (cap : Nat) (buf : Bytes) (answer : Option Bytes) :
    Option (Nat × Bytes) :=
  if buf.length = cap then
    if grants (cap * 2) then
      (gzread answer ((cap * 2 - buf.length) % 2 ^ 32)).map fun got => (cap * 2, got)
    else none
  else (gzread answer ((cap - buf.length) % 2 ^ 32)).map fun got => (cap, got)

/-- The loop of `m2022_read_file`; behind the last answer is the end of the
file. -/
def readLoop (grants : Nat → Bool) (cap : Nat) (buf : Bytes) : List (Option Bytes) → Option Bytes
  | [] => (readPass grants cap buf (some [])).map fun _ => buf
  | answer :: answers =>
    match readPass grants cap buf answer with
    | none => none
    | some (cap, got) => if got = [] then some buf else readLoop grants cap (buf ++ got) answers

/-- `m2022_read_file`. -/
def readFile (grants : Nat → Bool) (file : GzFile) : Option Bytes :=
  if file.opens = true ∧ grants (2 ^ 20) = true then readLoop grants (2 ^ 20) [] file.answers
  else none

theorem length_gzread {answer : Option Bytes} {len : Nat} {got : Bytes}
    (h : gzread answer len = some got) : len < 2 ^ 31 ∧ got.length ≤ len := by
  unfold gzread at h
  split_ifs at h with hlen
  obtain ⟨data, -, rfl⟩ := Option.map_eq_some_iff.mp h
  rw [List.length_take]
  exact ⟨Nat.not_le.mp hlen, Nat.min_le_left _ _⟩

/-- The sizes the buffer goes through. -/
def Capacity (cap : Nat) : Prop := ∃ k ≤ 11, cap = 2 ^ (20 + k)

theorem Capacity.le {cap : Nat} (h : Capacity cap) : cap ≤ 2 ^ 31 := by
  obtain ⟨k, hk, rfl⟩ := h
  exact Nat.pow_le_pow_right (by decide) (by omega)

/-- Short of 2 GiB the capacity can be doubled. -/
theorem Capacity.double {cap : Nat} (h : Capacity cap) (hlt : cap < 2 ^ 31) : Capacity (cap * 2) := by
  obtain ⟨k, hk, rfl⟩ := h
  refine ⟨k + 1, ?_, (Nat.pow_succ 2 (20 + k)).symm⟩
  by_contra hge
  have heq : k = 11 := by omega
  rw [heq] at hlt
  exact Nat.lt_irrefl _ hlt

/-- A pass that reads finds less than 2 GiB in the buffer, and what it reads
fits. -/
theorem readPass_some {grants : Nat → Bool} {cap cap' : Nat} {buf got : Bytes}
    {answer : Option Bytes} (hcap : Capacity cap) (hbuf : buf.length ≤ cap)
    (h : readPass grants cap buf answer = some (cap', got)) :
    buf.length < 2 ^ 31 ∧ Capacity cap' ∧ (buf ++ got).length ≤ cap' := by
  have hle := hcap.le
  unfold readPass at h
  rw [List.length_append]
  split_ifs at h with hfull hgrants
  · obtain ⟨data, hread, heq⟩ := Option.map_eq_some_iff.mp h
    obtain ⟨rfl, rfl⟩ := Prod.mk.inj heq
    obtain ⟨hrequest, hlen⟩ := length_gzread hread
    rw [Nat.mod_eq_of_lt (by omega)] at hrequest hlen
    exact ⟨by omega, hcap.double (by omega), by omega⟩
  · obtain ⟨data, hread, heq⟩ := Option.map_eq_some_iff.mp h
    obtain ⟨rfl, rfl⟩ := Prod.mk.inj heq
    obtain ⟨-, hlen⟩ := length_gzread hread
    rw [Nat.mod_eq_of_lt (by omega)] at hlen
    exact ⟨by omega, hcap, by omega⟩

theorem length_readLoop {grants : Nat → Bool} {cap : Nat} {buf data : Bytes}
    {answers : List (Option Bytes)} (hcap : Capacity cap) (hbuf : buf.length ≤ cap)
    (h : readLoop grants cap buf answers = some data) : data.length < 2 ^ 31 := by
  induction answers generalizing cap buf with
  | nil =>
    obtain ⟨⟨cap', got⟩, hpass, rfl⟩ := Option.map_eq_some_iff.mp h
    exact (readPass_some hcap hbuf hpass).1
  | cons answer answers ih =>
    rw [readLoop] at h
    cases hpass : readPass grants cap buf answer with
    | none =>
      rw [hpass] at h
      exact absurd h (by simp)
    | some pass =>
      obtain ⟨cap', got⟩ := pass
      obtain ⟨hlt, hcap', hbuf'⟩ := readPass_some hcap hbuf hpass
      rw [hpass] at h
      dsimp only at h
      split_ifs at h with hend
      · obtain rfl := Option.some_inj.mp h
        exact hlt
      · exact ih hcap' hbuf' h

/-- A file that is loaded has less than 2 GiB. -/
theorem length_readFile {grants : Nat → Bool} {file : GzFile} {data : Bytes}
    (h : readFile grants file = some data) : data.length < 2 ^ 31 := by
  unfold readFile at h
  split_ifs at h
  exact length_readLoop ⟨0, by decide, rfl⟩ (Nat.zero_le _) h

theorem gzread_some {data : Bytes} {len : Nat} (h : len < 2 ^ 31) :
    gzread (some data) len = some (data.take len) :=
  if_neg (Nat.not_le.mpr h)

/-- A pass with less than 2 GiB in the buffer reads on. -/
theorem readPass_granted {cap : Nat} {buf : Bytes} (hcap : Capacity cap) (hbuf : buf.length ≤ cap)
    (hroom : cap - buf.length < 2 ^ 31) (hlt : buf.length < 2 ^ 31) (rest : Bytes) :
    ∃ cap', Capacity cap' ∧ buf.length < cap' ∧ cap' - buf.length < 2 ^ 31 ∧
      readPass (fun _ => true) cap buf (some rest) =
        some (cap', rest.take (cap' - buf.length)) := by
  have hle := hcap.le
  unfold readPass
  by_cases hfull : buf.length = cap
  · refine ⟨cap * 2, hcap.double (by omega), ?_, by omega, ?_⟩
    · obtain ⟨k, -, rfl⟩ := hcap
      have hpos : 0 < 2 ^ (20 + k) := Nat.two_pow_pos _
      omega
    · rw [if_pos hfull, if_pos rfl, Nat.mod_eq_of_lt (by omega), gzread_some (by omega)]
      rfl
  · refine ⟨cap, hcap, by omega, hroom, ?_⟩
    rw [if_neg hfull, Nat.mod_eq_of_lt (by omega), gzread_some hroom]
    rfl

theorem exists_readLoop {cap : Nat} {buf rest : Bytes} (hcap : Capacity cap)
    (hbuf : buf.length ≤ cap) (hroom : cap - buf.length < 2 ^ 31)
    (hlt : buf.length + rest.length < 2 ^ 31) :
    ∃ answers, readLoop (fun _ => true) cap buf answers = some (buf ++ rest) := by
  induction hn : rest.length using Nat.strongRecOn generalizing cap buf rest with
  | ind n ih =>
    obtain ⟨cap', hcap', hless, hroom', hpass⟩ :=
      readPass_granted hcap hbuf hroom (by omega) rest
    by_cases hrest : rest = []
    · refine ⟨[], ?_⟩
      rw [readLoop, ← hrest, hpass, hrest, List.append_nil]
      rfl
    · have hpos : 0 < rest.length := List.length_pos_iff.mpr hrest
      have htake : rest.take (cap' - buf.length) ≠ [] := by
        rw [← List.length_pos_iff, List.length_take]
        omega
      have hlen : (buf ++ rest.take (cap' - buf.length)).length ≤ cap' := by
        rw [List.length_append, List.length_take]
        omega
      obtain ⟨answers, hanswers⟩ := ih (rest.drop (cap' - buf.length)).length
        (by rw [List.length_drop]; omega) hcap' hlen
        (by rw [List.length_append, List.length_take]; omega)
        (by rw [List.length_append, List.length_take, List.length_drop]; omega) rfl
      refine ⟨some rest :: answers, ?_⟩
      rw [readLoop, hpass]
      dsimp only
      rw [if_neg htake, hanswers, List.append_assoc, List.take_append_drop]

/-- All contents of less than 2 GiB can be loaded. -/
theorem exists_readFile {data : Bytes} (h : data.length < 2 ^ 31) :
    ∃ file, readFile (fun _ => true) file = some data := by
  have hloop : ∃ answers, readLoop (fun _ => true) (2 ^ 20) [] answers = some ([] ++ data) :=
    exists_readLoop ⟨0, by decide, rfl⟩ (Nat.zero_le _) (by decide) (by simpa using h)
  obtain ⟨answers, hanswers⟩ := hloop
  exact ⟨⟨true, answers⟩, hanswers⟩

/-! ## Portable anymaps -/

def isBlank (c : UInt8) : Bool := c == 32 || c == 9 || c == 13 || c == 10

/-- The comments in front of a token.  Each has at least its first byte, so the
length of the text bounds how many there are. -/
def skipComments : Nat → Bytes → Bytes
  | 0, s => s
  | left + 1, s =>
    if s.head? = some 35 then
      skipComments left
        ((s.dropWhile fun c => c != 10).dropWhile fun c => c == 32 || c == 10 || c == 13)
    else s

/-- `read_token` on what is left of the data: the value, in 32 bits, and what
is left behind it. -/
def readToken (s : Bytes) : Option (UInt32 × Bytes) :=
  let s := skipComments s.length (s.dropWhile isBlank)
  let digits := s.takeWhile isDigit
  if digits = [] then none
  else some (digits.foldl (fun v d => v * 10 + (d.toUInt32 - 48)) 0, s.dropWhile isDigit)

/-- `m2022_pnm_t`; `pixels` is an offset into the data. -/
structure Pnm where
  type : Nat
  width : UInt32
  height : UInt32
  maxval : UInt32
  pixels : Nat
  pixelBytes : Nat
deriving Repr, DecidableEq

/-- The part of `m2022_pnm_parse` behind the tokens, with `pos` behind the byte
after them. -/
def pnmPixels (d : Bytes) (type : Nat) (w h maxval : UInt32) (pos : Nat) : Except Int Pnm :=
  let pixelBytes := (if type = 4 then (w.toNat + 7) / 8 * h.toNat else w.toNat * h.toNat) % 2 ^ 64
  if (pos + pixelBytes) % 2 ^ 64 > d.length ∨ w = 0 ∨ h = 0 ∨ (type = 5 ∧ maxval ≠ 255) then
    .error (-3)
  else
    .ok {
      type := type
      width := w
      height := h
      maxval := maxval
      pixels := pos
      pixelBytes := pixelBytes }

/-- `m2022_pnm_parse`. -/
def pnmParse (d : Bytes) : Except Int Pnm :=
  if d.length < 3 ∨ byteAt d 0 ≠ 80 ∨ (byteAt d 1 ≠ 52 ∧ byteAt d 1 ≠ 53) then .error (-1)
  else
    let type := (byteAt d 1).toNat - 48
    match readToken (d.drop 2) with
    | none => .error (-2)
    | some (w, rest) =>
      match readToken rest with
      | none => .error (-2)
      | some (h, rest) =>
        match (if type = 5 then readToken rest else some (1, rest)) with
        | none => .error (-2)
        | some (maxval, rest) => pnmPixels d type w h maxval (d.length - rest.length + 1)

/-- The size check of data that is loaded does not wrap. -/
theorem pnmPixels_ok {d : Bytes} {type : Nat} {w h maxval : UInt32} {pos : Nat} {pnm : Pnm}
    (hd : d.length < 2 ^ 31) (hpos : pos ≤ d.length + 1)
    (hok : pnmPixels d type w h maxval pos = .ok pnm) :
    pnm.type = type ∧ pnm.width.toNat ≠ 0 ∧ pnm.height.toNat ≠ 0 ∧
      pnm.pixels + (if type = 4 then (pnm.width.toNat + 7) / 8 * pnm.height.toNat
        else pnm.width.toNat * pnm.height.toNat) ≤ d.length := by
  have hw := w.toNat_lt
  have hh := h.toNat_lt
  have hgray : w.toNat * h.toNat ≤ (2 ^ 32 - 1) * (2 ^ 32 - 1) :=
    Nat.mul_le_mul (by omega) (by omega)
  have hbits : (w.toNat + 7) / 8 * h.toNat ≤ (2 ^ 32 - 1) * (2 ^ 32 - 1) :=
    Nat.mul_le_mul (by omega) (by omega)
  have hne {v : UInt32} (hv : v ≠ 0) : v.toNat ≠ 0 := fun h0 => hv (UInt32.toNat_inj.mp h0)
  unfold pnmPixels at hok
  generalize hbytes : (if type = 4 then (w.toNat + 7) / 8 * h.toNat
    else w.toNat * h.toNat) = n at hok
  have hn : n ≤ (2 ^ 32 - 1) * (2 ^ 32 - 1) := by
    rw [← hbytes]
    split_ifs
    · exact hbits
    · exact hgray
  dsimp only at hok
  split_ifs at hok with hrefused
  obtain rfl := Except.ok.inj hok
  simp only [not_or] at hrefused
  obtain ⟨hsize, hw0, hh0, -⟩ := hrefused
  refine ⟨rfl, hne hw0, hne hh0, ?_⟩
  dsimp only
  rw [hbytes]
  omega

/-- An anymap that is accepted has a type, a size and its pixels. -/
theorem pnmParse_ok {d : Bytes} {pnm : Pnm} (hd : d.length < 2 ^ 31) (h : pnmParse d = .ok pnm) :
    (pnm.type = 4 ∨ pnm.type = 5) ∧ pnm.width.toNat ≠ 0 ∧ pnm.height.toNat ≠ 0 ∧
      pnm.pixels + (if pnm.type = 4 then (pnm.width.toNat + 7) / 8 * pnm.height.toNat
        else pnm.width.toNat * pnm.height.toNat) ≤ d.length := by
  unfold pnmParse at h
  split_ifs at h with hrefused
  have htype : (byteAt d 1).toNat - 48 = 4 ∨ (byteAt d 1).toNat - 48 = 5 := by
    by_cases h4 : byteAt d 1 = 52
    · rw [h4]
      exact .inl rfl
    · have h5 : byteAt d 1 = 53 := by
        by_contra h5
        exact hrefused (.inr (.inr ⟨h4, h5⟩))
      rw [h5]
      exact .inr rfl
  dsimp only at h
  split at h
  · exact absurd h (by simp)
  split at h
  · exact absurd h (by simp)
  split at h
  · exact absurd h (by simp)
  obtain ⟨heq, hrest⟩ := pnmPixels_ok hd (by omega) h
  rw [heq]
  exact ⟨htype, hrest⟩

end Airbridge.Common
