import Airbridge.Common.Fileio

/-!
# What the header of an anymap says

The header of an anymap is a magic and two or three decimal numerals, with
white space and comments in front of each.  `header` reads it so, as
unbounded numbers.  `read_token` agrees with it on where a numeral is
(`numeral_of_readToken`), but keeps the value modulo `2 ^ 32`, and the size
check adds modulo `2 ^ 64`.  So an accepted anymap is what its header says
exactly when the numbers fit (`pnmParse_says_iff`).

`m2022_pbm_write` prints numbers that fit: what it writes reads back
(`pnmParse_pbmBytes`).
-/

namespace Airbridge.Common

open Airbridge.Qpdl (Bytes byteAt ascii)
open CString (isDigit decimal decimalValue)

/-! ## The numerals of a header -/

/-- The text behind white space and comments.  The flag tells that the text
begins inside a comment. -/
def skipFiller : Bool → Bytes → Bytes
  | _, [] => []
  | true, c :: s => skipFiller (c != 10) s
  | false, c :: s =>
    if isBlank c then skipFiller false s
    else if c = 35 then skipFiller true s
    else c :: s

/-- The numeral in front of a text, and the text behind it. -/
def numeral (s : Bytes) : Option (Nat × Bytes) :=
  let s := skipFiller false s
  let digits := s.takeWhile isDigit
  if digits = [] then none else some (decimalValue digits, s.dropWhile isDigit)

/-- What a header says; `pixels` is the offset behind it. -/
structure Header where
  width : Nat
  height : Nat
  maxval : Nat
  pixels : Nat
deriving Repr, DecidableEq

/-- The header of an anymap, with a third numeral in a P5. -/
def header (d : Bytes) : Option Header :=
  match numeral (d.drop 2) with
  | none => none
  | some (width, rest) =>
    match numeral rest with
    | none => none
    | some (height, rest) =>
      match (if byteAt d 1 = 53 then numeral rest else some (1, rest)) with
      | none => none
      | some (maxval, rest) => some ⟨width, height, maxval, d.length - rest.length + 1⟩

/-- The bytes of the pixels of a P4 or a P5. -/
def imageBytes (type width height : Nat) : Nat :=
  if type = 4 then (width + 7) / 8 * height else width * height

/-- The parsed anymap is what the header says, and its pixels are in the
data. -/
structure Says (d : Bytes) (pnm : Pnm) (h : Header) : Prop where
  header_eq : header d = some h
  width : pnm.width.toNat = h.width
  height : pnm.height.toNat = h.height
  maxval : pnm.type = 5 → pnm.maxval.toNat = h.maxval
  width_pos : 1 ≤ h.width
  height_pos : 1 ≤ h.height
  pixelBytes : pnm.pixelBytes = imageBytes pnm.type h.width h.height
  inside : pnm.pixels + pnm.pixelBytes ≤ d.length

/-- The numerals fit 32 bits, and the end of the pixels fits 64. -/
def HeaderFits (d : Bytes) : Prop :=
  ∀ h ∈ header d, h.width < 2 ^ 32 ∧ h.height < 2 ^ 32 ∧ (byteAt d 1 = 53 → h.maxval < 2 ^ 32) ∧
    h.pixels + imageBytes ((byteAt d 1).toNat - 48) h.width h.height < 2 ^ 64

instance (d : Bytes) : Decidable (HeaderFits d) := by
  unfold HeaderFits
  infer_instance

/-! ## The tokenizer finds the numerals -/

theorem skipFiller_true (s : Bytes) :
    skipFiller true s = skipFiller false (s.dropWhile fun c => c != 10) := by
  induction s with
  | nil => rfl
  | cons c s ih =>
    by_cases hc : c = 10
    · subst hc
      rfl
    · have hne : (c != 10) = true := by simpa using hc
      have hdrop : (c :: s).dropWhile (fun c => c != 10) = s.dropWhile fun c => c != 10 :=
        List.dropWhile_cons_of_pos hne
      rw [skipFiller, hne, ih, hdrop]

/-- Skipping some white space first makes no difference. -/
theorem skipFiller_dropWhile (skipped : UInt8 → Bool)
    (hblank : ∀ c, skipped c = true → isBlank c = true) (s : Bytes) :
    skipFiller false (s.dropWhile skipped) = skipFiller false s := by
  induction s with
  | nil => rfl
  | cons c s ih =>
    by_cases hc : skipped c = true
    · rw [List.dropWhile_cons_of_pos hc, ih, skipFiller, if_pos (hblank c hc)]
    · rw [List.dropWhile_cons_of_neg hc]

theorem skipFiller_comment (s : Bytes) (h : s.head? = some 35) :
    skipFiller false (s.dropWhile fun c => c != 10) = skipFiller false s := by
  obtain ⟨rest, rfl⟩ : ∃ rest, s = 35 :: rest := by
    cases s with
    | nil => simp at h
    | cons c rest => exact ⟨rest, by simpa using h⟩
  rw [List.dropWhile_cons_of_pos (by decide), ← skipFiller_true]
  rfl

/-- The loop over comments stays within white space and comments. -/
theorem skipFiller_skipComments (left : Nat) (s : Bytes) :
    skipFiller false (skipComments left s) = skipFiller false s := by
  induction left generalizing s with
  | zero => rfl
  | succ left ih =>
    rw [skipComments]
    split_ifs with hcomment
    · rw [ih, skipFiller_dropWhile _ _ _, skipFiller_comment s hcomment]
      intro c hc
      simp only [Bool.or_eq_true, beq_iff_eq] at hc
      simp only [isBlank, Bool.or_eq_true, beq_iff_eq]
      tauto
    · rfl

theorem not_filler_of_isDigit {c : UInt8} (h : isDigit c = true) :
    isBlank c = false ∧ c ≠ 35 := by
  revert h
  refine Bits.forall_byte (P := fun c => isDigit c = true → isBlank c = false ∧ c ≠ 35) ?_ c
  decide +kernel

/-- A digit ends white space and comments. -/
theorem skipFiller_digit {c : UInt8} {s : Bytes} (h : isDigit c = true) :
    skipFiller false (c :: s) = c :: s := by
  obtain ⟨hblank, hhash⟩ := not_filler_of_isDigit h
  rw [skipFiller, hblank, if_neg Bool.false_ne_true, if_neg hhash]

theorem decimalValue_append_singleton (s : Bytes) (d : UInt8) :
    decimalValue (s ++ [d]) = decimalValue s * 10 + (d.toNat - 48) := by
  simp only [decimalValue, List.reverse_append, List.reverse_singleton, List.singleton_append,
    List.map_cons, Nat.ofDigits_cons]
  omega

/-- The value in 32 bits is the value of the digits modulo `2 ^ 32`. -/
theorem toNat_foldl_digits (digits : Bytes) (h : ∀ d ∈ digits, isDigit d = true) :
    (digits.foldl (fun v d => v * 10 + (d.toUInt32 - 48)) (0 : UInt32)).toNat =
      decimalValue digits % 2 ^ 32 := by
  induction digits using List.reverseRecOn with
  | nil => rfl
  | append_singleton digits d ih =>
    have hd : isDigit d = true := h d (by simp)
    have hvalue := ih fun d hd => h d (by simp [hd])
    simp only [isDigit, Bool.and_eq_true, decide_eq_true_eq, UInt8.le_iff_toNat_le] at hd
    have hlow : 48 ≤ d.toNat := hd.1
    have hhigh : d.toNat ≤ 57 := hd.2
    have hdigit : (d.toUInt32 - 48).toNat = d.toNat - 48 := by
      rw [UInt32.toNat_sub_of_le _ _ (by rw [UInt32.le_iff_toNat_le]; simpa using hlow)]
      simp
    rw [List.foldl_append, List.foldl_cons, List.foldl_nil, UInt32.toNat_add, UInt32.toNat_mul,
      hvalue, hdigit, decimalValue_append_singleton]
    have hten : (10 : UInt32).toNat = 10 := rfl
    rw [hten]
    omega

/-- A text whose first byte is a digit. -/
theorem skipFiller_of_digits {t : Bytes} (h : t.takeWhile isDigit ≠ []) :
    skipFiller false t = t := by
  cases t with
  | nil => rfl
  | cons c t =>
    by_cases hc : isDigit c = true
    · exact skipFiller_digit hc
    · rw [List.takeWhile_cons_of_neg hc] at h
      exact absurd rfl h

/-- A token is read at the numeral, with its value in 32 bits. -/
theorem numeral_of_readToken {s rest : Bytes} {v : UInt32} (h : readToken s = some (v, rest)) :
    ∃ n, numeral s = some (n, rest) ∧ v.toNat = n % 2 ^ 32 := by
  unfold readToken at h
  dsimp only at h
  split_ifs at h with hdigits
  obtain ⟨rfl, rfl⟩ := Prod.mk.inj (Option.some_inj.mp h)
  have hstart : skipFiller false s = skipComments s.length (s.dropWhile isBlank) := by
    rw [← skipFiller_of_digits hdigits, skipFiller_skipComments,
      skipFiller_dropWhile _ fun _ hc => hc]
  refine ⟨decimalValue ((skipFiller false s).takeWhile isDigit), ?_, ?_⟩
  · rw [numeral, hstart, if_neg hdigits]
  · rw [hstart]
    exact toNat_foldl_digits _ fun d hd => List.mem_takeWhile_imp hd

/-! ## An accepted anymap -/

/-- What the size check lets through: the end of the pixels is compared
modulo `2 ^ 64`. -/
theorem pnmPixels_eq_ok {d : Bytes} {type : Nat} {w h maxval : UInt32} {pos : Nat} {pnm : Pnm}
    (hok : pnmPixels d type w h maxval pos = .ok pnm) :
    pnm = ⟨type, w, h, maxval, pos, imageBytes type w.toNat h.toNat⟩ ∧
      (pos + imageBytes type w.toNat h.toNat) % 2 ^ 64 ≤ d.length ∧
      1 ≤ w.toNat ∧ 1 ≤ h.toNat := by
  have hfits : imageBytes type w.toNat h.toNat < 2 ^ 64 := by
    have hw := w.toNat_lt
    have hh := h.toNat_lt
    have hgray : w.toNat * h.toNat ≤ (2 ^ 32 - 1) * (2 ^ 32 - 1) :=
      Nat.mul_le_mul (by omega) (by omega)
    have hbits : (w.toNat + 7) / 8 * h.toNat ≤ (2 ^ 32 - 1) * (2 ^ 32 - 1) :=
      Nat.mul_le_mul (by omega) (by omega)
    unfold imageBytes
    split_ifs <;> omega
  have hpos {v : UInt32} (hv : v ≠ 0) : 1 ≤ v.toNat :=
    Nat.one_le_iff_ne_zero.mpr fun h0 => hv (UInt32.toNat_inj.mp h0)
  unfold pnmPixels at hok
  dsimp only at hok
  rw [← imageBytes, Nat.mod_eq_of_lt hfits] at hok
  split_ifs at hok with hrefused
  obtain rfl := Except.ok.inj hok
  simp only [not_or, not_lt] at hrefused
  exact ⟨rfl, hrefused.1, hpos hrefused.2.1, hpos hrefused.2.2.1⟩

/-- The numbers of an accepted anymap are those of its header, in their
widths. -/
theorem pnmParse_header {d : Bytes} {pnm : Pnm} (hok : pnmParse d = .ok pnm) :
    ∃ h, header d = some h ∧ pnm.type = (byteAt d 1).toNat - 48 ∧
      (pnm.type = 5 ↔ byteAt d 1 = 53) ∧
      pnm.width.toNat = h.width % 2 ^ 32 ∧ pnm.height.toNat = h.height % 2 ^ 32 ∧
      (pnm.type = 5 → pnm.maxval.toNat = h.maxval % 2 ^ 32) ∧
      1 ≤ pnm.width.toNat ∧ 1 ≤ pnm.height.toNat ∧ pnm.pixels = h.pixels ∧
      pnm.pixelBytes = imageBytes pnm.type pnm.width.toNat pnm.height.toNat ∧
      (pnm.pixels + pnm.pixelBytes) % 2 ^ 64 ≤ d.length := by
  unfold pnmParse at hok
  split_ifs at hok with hrefused
  have htype : (byteAt d 1).toNat - 48 = 5 ↔ byteAt d 1 = 53 := by
    constructor
    · intro h5
      apply UInt8.toNat_inj.mp
      show _ = 53
      omega
    · intro h5
      rw [h5]
      rfl
  dsimp only at hok
  split at hok
  · exact absurd hok (by simp)
  rename_i w rest hw
  split at hok
  · exact absurd hok (by simp)
  rename_i h rest' hh
  split at hok
  · exact absurd hok (by simp)
  rename_i maxval rest'' hmaxval
  obtain ⟨wide, hwide, hwmod⟩ := numeral_of_readToken hw
  obtain ⟨tall, htall, hhmod⟩ := numeral_of_readToken hh
  have hthird : ∃ n, (if byteAt d 1 = 53 then numeral rest' else some (1, rest')) =
      some (n, rest'') ∧ maxval.toNat = n % 2 ^ 32 := by
    by_cases h5 : byteAt d 1 = 53
    · rw [if_pos (htype.mpr h5)] at hmaxval
      rw [if_pos h5]
      exact numeral_of_readToken hmaxval
    · rw [if_neg fun heq => h5 (htype.mp heq)] at hmaxval
      obtain ⟨rfl, rfl⟩ := Prod.mk.inj (Option.some_inj.mp hmaxval)
      rw [if_neg h5]
      exact ⟨1, rfl, rfl⟩
  obtain ⟨top, htop, hmmod⟩ := hthird
  obtain ⟨rfl, hsize, hw1, hh1⟩ := pnmPixels_eq_ok hok
  refine ⟨⟨wide, tall, top, d.length - rest''.length + 1⟩, ?_, rfl, htype, hwmod, hhmod,
    fun _ => hmmod, hw1, hh1, rfl, rfl, hsize⟩
  rw [header, hwide]
  dsimp only
  rw [htall]
  dsimp only
  rw [htop]

/-- An accepted anymap is what its header says exactly when the numbers
fit. -/
theorem says_iff_headerFits {d : Bytes} {pnm : Pnm} (hd : d.length < 2 ^ 64)
    (hok : pnmParse d = .ok pnm) : (∃ h, Says d pnm h) ↔ HeaderFits d := by
  obtain ⟨h, hheader, htype, h5, hw, hh, hmaxval, hw1, hh1, hpixels, hbytes, hsize⟩ :=
    pnmParse_header hok
  constructor
  · rintro ⟨h', hmeans⟩
    obtain rfl : h = h' := Option.some_inj.mp (hheader.symm.trans hmeans.header_eq)
    intro h' hmem
    obtain rfl : h = h' := Option.some_inj.mp (hheader.symm.trans hmem)
    have hwide := hmeans.width
    have htall := hmeans.height
    refine ⟨by omega, by omega, ?_, ?_⟩
    · intro hp5
      have htop := hmeans.maxval (h5.mpr hp5)
      have := hmaxval (h5.mpr hp5)
      omega
    · have hinside := hmeans.inside
      rw [hpixels, hmeans.pixelBytes, htype] at hinside
      omega
  · intro hfits
    obtain ⟨hwlt, hhlt, hmlt, hend⟩ := hfits h hheader
    rw [Nat.mod_eq_of_lt hwlt] at hw
    rw [Nat.mod_eq_of_lt hhlt] at hh
    rw [hw, hh] at hbytes
    refine ⟨h, hheader, hw, hh, ?_, hw ▸ hw1, hh ▸ hh1, hbytes, ?_⟩
    · intro hp5
      rw [hmaxval hp5, Nat.mod_eq_of_lt (hmlt (h5.mp hp5))]
    · rw [hpixels, hbytes, htype, Nat.mod_eq_of_lt hend] at hsize
      rw [hpixels, hbytes, htype]
      exact hsize

/-! ## Writing a bitmap -/

/-- The file behind an output stream: whether it can be opened, how many of
the bytes of a `fwrite` are written, and whether closing it succeeds. -/
structure OutFile where
  opens : Bool
  fwrite : Nat → Nat
  closes : Bool

/-- The header that `m2022_pbm_write` prints. -/
def pbmHeader (width height : UInt32) : Bytes :=
  ascii "P4\n" ++ decimal width.toNat ++ ascii " " ++ decimal height.toNat ++ ascii "\n"

/-- `m2022_pbm_write`: the code, and the bytes in the file. -/
def pbmWrite (file : OutFile) (width height : UInt32) (rows : Bytes) : Int × Bytes :=
  let bpr := (width.toNat + 7) / 8
  let n := bpr * height.toNat % 2 ^ 64
  if file.opens = true then
    (if file.fwrite n = n ∧ file.closes = true then 0 else -1,
      pbmHeader width height ++ rows.take (file.fwrite n))
  else (-1, [])

/-- A printed number is read back as a token. -/
theorem readToken_decimal {blank : UInt8} (hblank : isBlank blank = true) (n : Nat) {s : Bytes}
    (hs : s.takeWhile isDigit = []) :
    readToken (blank :: (decimal n ++ s)) = some (UInt32.ofNat n, s) := by
  obtain ⟨hdigits, hrest⟩ := CString.span_decimal n hs
  obtain ⟨c, tail, hcons⟩ := List.exists_cons_of_ne_nil (CString.decimal_ne_nil n)
  have hc : isDigit c = true :=
    CString.isDigit_of_mem_decimal (by rw [hcons]; exact List.mem_cons_self)
  have hclass : isBlank c = false ∧ c ≠ 35 := not_filler_of_isDigit hc
  have hskip : (blank :: (decimal n ++ s)).dropWhile isBlank = decimal n ++ s := by
    rw [List.dropWhile_cons_of_pos hblank, hcons, List.cons_append,
      List.dropWhile_cons_of_neg (by simp [hclass.1])]
  have hcomments (left : Nat) : skipComments left (decimal n ++ s) = decimal n ++ s := by
    cases left with
    | zero => rfl
    | succ left => rw [skipComments, if_neg (by simp [hcons, hclass.2])]
  have hvalue := toNat_foldl_digits (decimal n) fun b hb => CString.isDigit_of_mem_decimal hb
  rw [CString.decimalValue_decimal] at hvalue
  unfold readToken
  dsimp only
  rw [hskip, hcomments, hdigits, hrest, if_neg (CString.decimal_ne_nil n), Option.some_inj,
    Prod.mk.injEq]
  refine ⟨?_, rfl⟩
  apply UInt32.toNat_inj.mp
  rw [hvalue, UInt32.toNat_ofNat']

theorem pbmHeader_append (width height : UInt32) (rows : Bytes) :
    pbmHeader width height ++ rows =
      80 :: 52 :: 10 :: (decimal width.toNat ++ 32 :: (decimal height.toNat ++ 10 :: rows)) := by
  have h1 : ascii "P4\n" = [80, 52, 10] := by decide
  have h2 : ascii " " = [32] := by decide
  have h3 : ascii "\n" = [10] := by decide
  simp [pbmHeader, h1, h2, h3]

theorem length_pbmHeader (width height : UInt32) : (pbmHeader width height).length ≤ 25 := by
  have hw := CString.length_decimal_le (k := 10) (by decide)
    (show width.toNat < 10 ^ 10 by have := width.toNat_lt; omega)
  have hh := CString.length_decimal_le (k := 10) (by decide)
    (show height.toNat < 10 ^ 10 by have := height.toNat_lt; omega)
  rw [← List.append_nil (pbmHeader width height), pbmHeader_append]
  simp only [List.length_cons, List.length_append, List.length_nil]
  omega

/-- The parse of a printed header with its rows behind it. -/
theorem pnmParse_pbmHeader {width height : UInt32} {rows : Bytes} (hwidth : 1 ≤ width.toNat)
    (hheight : 1 ≤ height.toNat)
    (hrows : rows.length = (width.toNat + 7) / 8 * height.toNat) :
    pnmParse (pbmHeader width height ++ rows) =
      .ok ⟨4, width, height, 1, (pbmHeader width height).length, rows.length⟩ := by
  have hw := width.toNat_lt
  have hh := height.toNat_lt
  have hsmall : (width.toNat + 7) / 8 * height.toNat ≤ 2 ^ 29 * 2 ^ 32 :=
    Nat.mul_le_mul (by omega) (by omega)
  have hhead := length_pbmHeader width height
  have hlen : (pbmHeader width height ++ rows).length =
      (pbmHeader width height).length + rows.length := List.length_append
  have hne {v : UInt32} (hv : 1 ≤ v.toNat) : v ≠ 0 := by
    rintro rfl
    exact absurd hv (by decide)
  have hfirst : readToken (10 :: (decimal width.toNat ++ 32 ::
      (decimal height.toNat ++ 10 :: rows))) = _ :=
    readToken_decimal (by decide) width.toNat rfl
  have hsecond : readToken (32 :: (decimal height.toNat ++ 10 :: rows)) = _ :=
    readToken_decimal (by decide) height.toNat rfl
  have hpos : (pbmHeader width height ++ rows).length - (10 :: rows).length + 1 =
      (pbmHeader width height).length := by
    rw [hlen, List.length_cons]
    have : 1 ≤ (pbmHeader width height).length := by
      rw [← List.append_nil (pbmHeader width height), pbmHeader_append]
      simp
    omega
  rw [pnmParse, if_neg]
  · have htype : (byteAt (pbmHeader width height ++ rows) 1).toNat - 48 = 4 := by
      rw [pbmHeader_append]
      rfl
    have hdrop : (pbmHeader width height ++ rows).drop 2 =
        10 :: (decimal width.toNat ++ 32 :: (decimal height.toNat ++ 10 :: rows)) := by
      rw [pbmHeader_append]
      rfl
    simp only [htype, hdrop, hfirst, hsecond]
    rw [if_neg (by decide)]
    dsimp only
    have hbytes : rows.length % 2 ^ 64 = rows.length := Nat.mod_eq_of_lt (by omega)
    have hend : ((pbmHeader width height).length + rows.length) % 2 ^ 64 =
        (pbmHeader width height).length + rows.length := Nat.mod_eq_of_lt (by omega)
    rw [hpos, pnmPixels, if_pos rfl, UInt32.ofNat_toNat, UInt32.ofNat_toNat, ← hrows, hbytes,
      hend, hlen, if_neg]
    simp [hne hwidth, hne hheight]
  · rw [pbmHeader_append]
    simp [byteAt]

/-- The bytes of a bitmap that was written. -/
theorem pbmWrite_ok {file : OutFile} {width height : UInt32} {rows : Bytes}
    (hrows : rows.length = (width.toNat + 7) / 8 * height.toNat)
    (hwritten : (pbmWrite file width height rows).1 = 0) :
    (pbmWrite file width height rows).2 = pbmHeader width height ++ rows := by
  have hw := width.toNat_lt
  have hh := height.toNat_lt
  have hsmall : (width.toNat + 7) / 8 * height.toNat ≤ 2 ^ 29 * 2 ^ 32 :=
    Nat.mul_le_mul (by omega) (by omega)
  unfold pbmWrite at hwritten ⊢
  dsimp only at hwritten ⊢
  split_ifs at hwritten ⊢ with hopens hdone
  · rw [hdone.1, ← hrows, Nat.mod_eq_of_lt (by omega), List.take_length]
  all_goals simp at hwritten

/-- A bitmap that was written is read back. -/
theorem pnmParse_pbmWrite {file : OutFile} {width height : UInt32} {rows : Bytes}
    (hwidth : 1 ≤ width.toNat) (hheight : 1 ≤ height.toNat)
    (hrows : rows.length = (width.toNat + 7) / 8 * height.toNat)
    (hwritten : (pbmWrite file width height rows).1 = 0) :
    ∃ pnm, pnmParse (pbmWrite file width height rows).2 = .ok pnm ∧ pnm.type = 4 ∧
      pnm.width = width ∧ pnm.height = height ∧
      ((pbmWrite file width height rows).2.drop pnm.pixels).take pnm.pixelBytes = rows := by
  rw [pbmWrite_ok hrows hwritten]
  refine ⟨_, pnmParse_pbmHeader hwidth hheight hrows, rfl, rfl, rfl, ?_⟩
  dsimp only
  rw [List.drop_left, List.take_length]

/-- An accepted anymap is what its header says, with its pixels in the data,
exactly when the numerals fit 32 bits and the end of the pixels fits 64.  What
`m2022_pbm_write` writes is read back. -/
theorem pnmParse_says_iff {d : Bytes} {pnm : Pnm} (hd : d.length < 2 ^ 64)
    (hok : pnmParse d = .ok pnm) :
    ((∃ h, Says d pnm h) ↔ HeaderFits d) ∧
      ∀ (file : OutFile) (width height : UInt32) (rows : Bytes),
        1 ≤ width.toNat → width.toNat ≤ 2 ^ 32 - 8 → 1 ≤ height.toNat →
        height.toNat ≤ 2 ^ 32 - 8 → rows.length = (width.toNat + 7) / 8 * height.toNat →
        (pbmWrite file width height rows).1 = 0 →
        ∃ pnm, pnmParse (pbmWrite file width height rows).2 = .ok pnm ∧ pnm.type = 4 ∧
          pnm.width = width ∧ pnm.height = height ∧
          ((pbmWrite file width height rows).2.drop pnm.pixels).take pnm.pixelBytes = rows := by
  refine ⟨says_iff_headerFits hd hok, ?_⟩
  intro file width height rows hwidth _ hheight _ hrows hwritten
  exact pnmParse_pbmWrite hwidth hheight hrows hwritten

/-- A gray map with comments in its header, and a bitmap of eight pixels. -/
theorem pnmParse_says_small :
    (∃ h, Says (ascii "P5 # 7\n2\t1\n#\n255\n" ++ [0, 255]) ⟨5, 2, 1, 255, 17, 2⟩ h) ∧
      ∃ pnm, pnmParse (pbmWrite ⟨true, id, true⟩ 8 1 [0xAA]).2 = .ok pnm ∧ pnm.type = 4 ∧
        pnm.width = 8 ∧ pnm.height = 1 ∧
        ((pbmWrite ⟨true, id, true⟩ 8 1 [0xAA]).2.drop pnm.pixels).take pnm.pixelBytes =
          [0xAA] := by
  have hlen : (ascii "P5 # 7\n2\t1\n#\n255\n" ++ [0, 255]).length < 2 ^ 64 := by decide
  have hok : pnmParse (ascii "P5 # 7\n2\t1\n#\n255\n" ++ [0, 255]) =
      .ok ⟨5, 2, 1, 255, 17, 2⟩ := rfl
  obtain ⟨hmeans, hwrite⟩ := pnmParse_says_iff hlen hok
  exact ⟨hmeans.mpr (by decide +kernel), hwrite ⟨true, id, true⟩ 8 1 [0xAA] (by decide) (by decide)
    (by decide) (by decide) rfl rfl⟩

/-- A bitmap that is 4294967304 pixels wide is accepted as one of 8. -/
theorem pnmParse_wide_bitmap :
    pnmParse (ascii "P4 4294967304 1\n" ++ [0]) = .ok ⟨4, 8, 1, 1, 16, 1⟩ ∧
      header (ascii "P4 4294967304 1\n" ++ [0]) = some ⟨4294967304, 1, 1, 16⟩ ∧
      ¬∃ h, Says (ascii "P4 4294967304 1\n" ++ [0]) ⟨4, 8, 1, 1, 16, 1⟩ h := by
  have hheader : header (ascii "P4 4294967304 1\n" ++ [0]) = some ⟨4294967304, 1, 1, 16⟩ := by
    decide +kernel
  refine ⟨rfl, hheader, ?_⟩
  intro ⟨h, hmeans⟩
  obtain rfl := Option.some_inj.mp (hheader.symm.trans hmeans.header_eq)
  exact absurd hmeans.width (by decide)

end Airbridge.Common
