import Airbridge.Lib.Bits
import Airbridge.Lib.Buffer
import Mathlib.Data.Nat.Digits.Lemmas
import Mathlib.Data.List.Infix
import Mathlib.Data.List.TakeWhile

/-!
# C strings

A C string is the list of its bytes in front of the terminating zero.  The
functions here are those of the C library over such lists: what fits a buffer
of a size, the conversion of an integer to decimal digits and back, the search
for a string or a byte in a string, the comparison that ignores case, and the
hexadecimal conversions.  A pointer into a string is the text from there on.
A string contains another one when that is an infix of it.
-/

abbrev CString := List UInt8

namespace CString

/-- What `snprintf(buf, size, "%s", s)` leaves in a buffer of `size` bytes. -/
def fit (size : Nat) (s : CString) : CString := s.take (size - 1)

theorem fit_eq {size : Nat} {s : CString} (h : s.length < size) : fit size s = s :=
  List.take_of_length_le (by omega)

theorem length_fit_le (size : Nat) (s : CString) : (fit size s).length ≤ size - 1 := by
  rw [fit, List.length_take]
  exact Nat.min_le_left _ _

/-- A string that leaves room was not cut. -/
theorem fit_eq_iff {size : Nat} {s t : CString} (h : t.length + 1 < size) :
    fit size s = t ↔ s = t := by
  constructor
  · intro heq
    have hlen := congrArg List.length heq
    rw [fit, List.length_take] at hlen
    rwa [fit_eq (by omega)] at heq
  · rintro rfl
    exact fit_eq (by omega)

/-! ## Strings in a buffer -/

/-- The string a buffer holds: its bytes before the first zero. -/
def ofBuffer (buf : List UInt8) : CString := buf.takeWhile (· ≠ 0)

theorem ofBuffer_append {s : CString} (h : 0 ∉ s) (rest : List UInt8) :
    ofBuffer (s ++ 0 :: rest) = s := by
  have hall : ∀ b ∈ s, decide (b ≠ 0) = true := fun b hb =>
    decide_eq_true fun heq => h (heq ▸ hb)
  rw [ofBuffer, List.takeWhile_append_of_pos hall, List.takeWhile_cons_of_neg (by decide),
    List.append_nil]

theorem zero_notMem_ofBuffer (buf : List UInt8) : 0 ∉ ofBuffer buf := by
  intro h
  have hne : (0 : UInt8) ≠ 0 := by simpa using List.mem_takeWhile_imp h
  exact hne rfl

/-- The string ends at the terminating zero. -/
theorem length_ofBuffer_append_zero (s : List UInt8) : (ofBuffer (s ++ [0])).length ≤ s.length := by
  induction s with
  | nil => exact Nat.le_refl 0
  | cons b s ih =>
    unfold ofBuffer at ih ⊢
    rw [List.cons_append, List.takeWhile_cons]
    split_ifs
    · exact Nat.succ_le_succ ih
    · exact Nat.zero_le _

/-- `snprintf(buf + n, room, "%s", s)`. -/
def snprintf (buf : List UInt8) (n room : Nat) (s : CString) : List UInt8 :=
  if room = 0 then buf else Buffer.store buf n (fit room s ++ [0])

/-! ## Decimal numbers -/

/-- The decimal digits of a number. -/
def decimal (n : Nat) : CString :=
  if n = 0 then [48] else ((Nat.digits 10 n).map fun d => UInt8.ofNat (48 + d)).reverse

/-- The conversion `%d`. -/
def formatInt (n : Int) : CString :=
  if n < 0 then 45 :: decimal n.natAbs else decimal n.natAbs

def isDigit (b : UInt8) : Bool := 48 ≤ b && b ≤ 57

def isSpace (b : UInt8) : Bool := b == 32 || 9 ≤ b && b ≤ 13

/-- The number of a string of digits. -/
def decimalValue (s : CString) : Nat := Nat.ofDigits 10 (s.reverse.map fun b => b.toNat - 48)

def atoi (s : CString) : Int :=
  match s.dropWhile isSpace with
  | 45 :: rest => -(decimalValue (rest.takeWhile isDigit) : Int)
  | 43 :: rest => decimalValue (rest.takeWhile isDigit)
  | rest => decimalValue (rest.takeWhile isDigit)

/-- A byte of a decimal number is a digit. -/
theorem isDigit_of_mem_decimal {n : Nat} {b : UInt8} (h : b ∈ decimal n) : isDigit b = true := by
  unfold decimal at h
  split_ifs at h
  · rw [List.mem_singleton.mp h]
    decide
  · rw [List.mem_reverse, List.mem_map] at h
    obtain ⟨d, hd, rfl⟩ := h
    have hlt : d < 10 := Nat.digits_lt_base (by decide) hd
    have hto : (UInt8.ofNat (48 + d)).toNat = 48 + d :=
      UInt8.toNat_ofNat_of_lt' (show 48 + d < 256 by omega)
    unfold isDigit
    rw [Bool.and_eq_true, decide_eq_true_iff, decide_eq_true_iff, UInt8.le_iff_toNat_le,
      UInt8.le_iff_toNat_le, hto]
    exact ⟨Nat.le_add_right 48 d, show 48 + d ≤ 57 by omega⟩

theorem decimalValue_decimal (n : Nat) : decimalValue (decimal n) = n := by
  unfold decimalValue decimal
  split_ifs with hn
  · rw [hn]
    rfl
  · have hdigits : ((Nat.digits 10 n).map fun d => UInt8.ofNat (48 + d)).map
        (fun b => b.toNat - 48) = Nat.digits 10 n := by
      rw [List.map_map]
      conv_rhs => rw [← List.map_id (Nat.digits 10 n)]
      apply List.map_congr_left
      intro d hd
      have hlt : d < 10 := Nat.digits_lt_base (by decide) hd
      show (UInt8.ofNat (48 + d)).toNat - 48 = d
      rw [UInt8.toNat_ofNat_of_lt' (show 48 + d < 256 by omega), Nat.add_sub_cancel_left]
    rw [List.reverse_reverse, hdigits, Nat.ofDigits_digits]

/-- A digit is neither white space nor a sign. -/
theorem digit_class {b : UInt8} (h : isDigit b = true) :
    isSpace b = false ∧ b ≠ 45 ∧ b ≠ 43 := by
  revert h
  refine Bits.forall_byte (P := fun b => isDigit b = true → isSpace b = false ∧ b ≠ 45 ∧ b ≠ 43)
    ?_ b
  decide +kernel

theorem decimal_ne_nil (n : Nat) : decimal n ≠ [] := by
  unfold decimal
  split_ifs with h
  · exact List.cons_ne_nil _ _
  · rw [ne_eq, List.reverse_eq_nil_iff, List.map_eq_nil_iff, ← ne_eq,
      Nat.digits_ne_nil_iff_ne_zero]
    exact h

theorem length_decimal_le {n k : Nat} (hk : 1 ≤ k) (h : n < 10 ^ k) :
    (decimal n).length ≤ k := by
  unfold decimal
  split_ifs
  · exact hk
  · rw [List.length_reverse, List.length_map]
    exact (Nat.digits_length_le_iff (by decide) n).mpr h

/-- The digits of a number in front of a text that does not go on with one. -/
theorem span_decimal (n : Nat) {s : CString} (h : s.takeWhile isDigit = []) :
    (decimal n ++ s).takeWhile isDigit = decimal n ∧ (decimal n ++ s).dropWhile isDigit = s := by
  have hall : ∀ b ∈ decimal n, isDigit b = true := fun b hb => isDigit_of_mem_decimal hb
  have hdrop : s.dropWhile isDigit = s := by
    have := List.takeWhile_append_dropWhile (p := isDigit) (l := s)
    rwa [h, List.nil_append] at this
  rw [List.takeWhile_append_of_pos hall, List.dropWhile_append_of_pos hall, h, hdrop,
    List.append_nil]
  exact ⟨rfl, rfl⟩

/-- Reading a number back. -/
theorem atoi_formatInt (n : Int) : atoi (formatInt n) = n := by
  have hvalue : decimalValue ((decimal n.natAbs).takeWhile isDigit) = n.natAbs := by
    have hall : (decimal n.natAbs).takeWhile isDigit = decimal n.natAbs :=
      List.takeWhile_eq_self_iff.mpr fun b hb => isDigit_of_mem_decimal hb
    rw [hall, decimalValue_decimal]
  have hne := decimal_ne_nil n.natAbs
  unfold formatInt
  split_ifs with hneg
  · show -(decimalValue ((decimal n.natAbs).takeWhile isDigit) : Int) = n
    rw [hvalue]
    omega
  · obtain ⟨b, rest, hcons⟩ := List.exists_cons_of_ne_nil hne
    have hb : isDigit b = true := isDigit_of_mem_decimal (by rw [hcons]; exact List.mem_cons_self)
    obtain ⟨hspace, hminus, hplus⟩ := digit_class hb
    have hdrop : (decimal n.natAbs).dropWhile isSpace = decimal n.natAbs := by
      rw [hcons, List.dropWhile_cons_of_neg (by rw [hspace]; exact Bool.false_ne_true)]
    have hatoi : atoi (decimal n.natAbs) =
        decimalValue ((decimal n.natAbs).takeWhile isDigit) := by
      unfold atoi
      rw [hdrop, hcons]
      split
      · rename_i heq
        exact absurd (List.cons.inj heq).1 hminus
      · rename_i heq
        exact absurd (List.cons.inj heq).1 hplus
      · rfl
    rw [hatoi, hvalue]
    omega

/-- Different integers have different texts. -/
theorem formatInt_inj {m n : Int} (h : formatInt m = formatInt n) : m = n := by
  rw [← atoi_formatInt m, h, atoi_formatInt]

/-! ## Searching -/

/-- `strstr`: the text from the first occurrence of `t` on. -/
def strstr : CString → CString → Option CString
  | [], t => if t = [] then some [] else none
  | c :: s, t => if t.isPrefixOf (c :: s) then some (c :: s) else strstr s t

theorem strstr_append (t s : CString) : strstr (t ++ s) t = some (t ++ s) := by
  cases h : t ++ s with
  | nil => rw [strstr, if_pos (List.append_eq_nil_iff.mp h).1]
  | cons c rest =>
    have hstart : t.isPrefixOf (c :: rest) = true :=
      List.isPrefixOf_iff_prefix.mpr ⟨s, h⟩
    rw [strstr, if_pos hstart]

/-- No occurrence of `t` begins in a text, whatever follows the text. -/
def neverBegins (t : CString) : CString → Bool
  | [] => true
  | c :: s => !t.isPrefixOf (c :: s) && !(c :: s).isPrefixOf t && neverBegins t s

theorem strstr_skip_of_neverBegins {t skipped : CString} (h : neverBegins t skipped = true)
    (s : CString) : strstr (skipped ++ s) t = strstr s t := by
  induction skipped with
  | nil => rfl
  | cons b skipped ih =>
    rw [neverBegins, Bool.and_eq_true, Bool.and_eq_true, Bool.not_eq_true', Bool.not_eq_true'] at h
    obtain ⟨⟨hwhole, hpart⟩, hrest⟩ := h
    have hne : t.isPrefixOf (b :: (skipped ++ s)) ≠ true := by
      intro hstart
      have ht : t <+: b :: skipped ++ s := List.isPrefixOf_iff_prefix.mp hstart
      have hskipped : b :: skipped <+: b :: skipped ++ s := List.prefix_append _ _
      rcases le_total t.length (b :: skipped).length with hle | hle
      · have hpre := List.prefix_of_prefix_length_le ht hskipped hle
        rw [List.isPrefixOf_iff_prefix.mpr hpre] at hwhole
        exact absurd hwhole (by decide)
      · have hpre := List.prefix_of_prefix_length_le hskipped ht hle
        rw [List.isPrefixOf_iff_prefix.mpr hpre] at hpart
        exact absurd hpart (by decide)
    rw [List.cons_append, strstr, if_neg hne]
    exact ih hrest

theorem neverBegins_of_not_mem {c : UInt8} {t s : CString} (ht : t.head? = some c)
    (h : c ∉ s) : neverBegins t s = true := by
  obtain ⟨rest, rfl⟩ : ∃ rest, t = c :: rest := by
    cases t with
    | nil => simp at ht
    | cons d rest => exact ⟨rest, by rw [Option.some_inj.mp ht]⟩
  induction s with
  | nil => rfl
  | cons b s ih =>
    rw [List.mem_cons, not_or] at h
    have hcb : (c == b) = false := by simpa using h.1
    have hbc : (b == c) = false := by simpa using Ne.symm h.1
    rw [neverBegins, List.isPrefixOf_cons_cons, List.isPrefixOf_cons_cons, hcb, hbc, ih h.2]
    rfl

/-- Nothing begins where the first byte does not occur. -/
theorem strstr_skip {c : UInt8} {t skipped : CString} (ht : t.head? = some c) (h : c ∉ skipped)
    (s : CString) : strstr (skipped ++ s) t = strstr s t :=
  strstr_skip_of_neverBegins (neverBegins_of_not_mem ht h) s

/-- `strchr`: the text from the first `c` on. -/
def strchr (s : CString) (c : UInt8) : Option CString :=
  if c ∈ s then some (s.dropWhile (· ≠ c)) else none

theorem strchr_append {c : UInt8} {t : CString} (h : c ∉ t) (s : CString) :
    strchr (t ++ c :: s) c = some (c :: s) := by
  have hall : ∀ b ∈ t, decide (b ≠ c) = true := fun b hb =>
    decide_eq_true fun heq => h (heq ▸ hb)
  rw [strchr, if_pos (List.mem_append_right t List.mem_cons_self),
    List.dropWhile_append_of_pos hall, List.dropWhile_cons_of_neg (by simp)]

theorem strchr_eq_none {c : UInt8} {s : CString} (h : c ∉ s) : strchr s c = none := if_neg h

/-- What `strchr` finds is behind the text it passed over. -/
theorem strchr_eq_some {c : UInt8} {s e : CString} (h : strchr s c = some e) :
    ∃ t rest, s = t ++ c :: rest ∧ e = c :: rest ∧ c ∉ t := by
  have hmem : c ∈ s := by
    by_contra hnot
    rw [strchr_eq_none hnot] at h
    exact absurd h (by simp)
  obtain ⟨t, rest, rfl, hnot⟩ := List.eq_append_cons_of_mem hmem
  rw [strchr_append hnot, Option.some_inj] at h
  exact ⟨t, rest, rfl, h.symm, hnot⟩

/-- `memchr`: the text from the first `c` among the first `n` bytes on. -/
def memchr (s : CString) (c : UInt8) (n : Nat) : Option CString :=
  if c ∈ s.take n then some (s.dropWhile (· ≠ c)) else none

theorem memchr_append {c : UInt8} {t : CString} (h : c ∉ t) (s : CString) {n : Nat}
    (hn : t.length < n) : memchr (t ++ c :: s) c n = some (c :: s) := by
  have hmem : c ∈ (t ++ c :: s).take n := by
    rw [List.take_append, List.take_of_length_le hn.le]
    obtain ⟨k, hk⟩ : ∃ k, n - t.length = k + 1 := ⟨n - t.length - 1, by omega⟩
    rw [hk, List.take_succ_cons]
    exact List.mem_append_right t List.mem_cons_self
  have hfound := strchr_append h s
  rw [strchr, if_pos (List.mem_append_right t List.mem_cons_self)] at hfound
  rw [memchr, if_pos hmem, hfound]

theorem strchr_of_memchr {c : UInt8} {s e : CString} {n : Nat} (h : memchr s c n = some e) :
    strchr s c = some e := by
  unfold memchr at h
  split_ifs at h with hmem
  rw [strchr, if_pos (List.mem_of_mem_take hmem), h]

/-! ## Comparing without case -/

/-- `tolower` of the C locale. -/
def lower (b : UInt8) : UInt8 := if 65 ≤ b ∧ b ≤ 90 then b + 32 else b

/-- `strcasecmp(s, t) == 0`. -/
def caseEq (s t : CString) : Bool := s.map lower == t.map lower

/-- `strncasecmp(s, t, n) == 0`. -/
def caseEqN (n : Nat) (s t : CString) : Bool := caseEq (s.take n) (t.take n)

theorem caseEq_iff {s t : CString} : caseEq s t = true ↔ s.map lower = t.map lower :=
  beq_iff_eq

theorem caseEq_comm (s t : CString) : caseEq s t = caseEq t s := BEq.comm

theorem caseEq_trans {s t u : CString} (hst : caseEq s t = true) (htu : caseEq t u = true) :
    caseEq s u = true := by
  rw [caseEq_iff] at hst htu ⊢
  exact hst.trans htu

theorem length_eq_of_caseEq {s t : CString} (h : caseEq s t = true) : s.length = t.length := by
  have hmap := congrArg List.length (caseEq_iff.mp h)
  rwa [List.length_map, List.length_map] at hmap

/-! ## Hexadecimal numbers -/

def isHexDigit (b : UInt8) : Bool := isDigit b || 97 ≤ b && b ≤ 102 || 65 ≤ b && b ≤ 70

def hexDigitValue (b : UInt8) : Nat :=
  if isDigit b then b.toNat - 48 else if 97 ≤ b then b.toNat - 87 else b.toNat - 55

/-- The number of a string of hexadecimal digits. -/
def hexValue (s : CString) : Nat := s.foldl (fun v b => 16 * v + hexDigitValue b) 0

/-- A sign, and the text behind it. -/
def splitSign : CString → Bool × CString
  | 45 :: s => (true, s)
  | 43 :: s => (false, s)
  | s => (false, s)

/-- The text behind a `0x` that digits follow. -/
def dropHexMark : CString → CString
  | 48 :: x :: d :: s => if (x = 120 ∨ x = 88) ∧ isHexDigit d then d :: s else 48 :: x :: d :: s
  | s => s

/-- The conversion `%x` of `sscanf` with a field width: the number, and the text
behind it. -/
def scanHex (width : Nat) (s : CString) : Option (UInt32 × CString) :=
  let s := s.dropWhile isSpace
  let field := s.take width
  let (negative, body) := splitSign field
  let body := dropHexMark body
  let digits := body.takeWhile isHexDigit
  let value := UInt32.ofNat (hexValue digits)
  if digits = [] then none
  else some (if negative then 0 - value else value,
    s.drop (field.length - body.length + digits.length))

theorem hexDigit_class {b : UInt8} (h : isHexDigit b = true) :
    isSpace b = false ∧ b ≠ 45 ∧ b ≠ 43 ∧ b ≠ 120 ∧ b ≠ 88 := by
  revert h
  refine Bits.forall_byte (P := fun b => isHexDigit b = true →
    isSpace b = false ∧ b ≠ 45 ∧ b ≠ 43 ∧ b ≠ 120 ∧ b ≠ 88) ?_ b
  decide +kernel

/-- As many digits as the field is wide are read as their number. -/
theorem scanHex_digits {digits : CString} (hne : digits ≠ [])
    (hall : ∀ b ∈ digits, isHexDigit b = true) (s : CString) :
    scanHex digits.length (digits ++ s) = some (UInt32.ofNat (hexValue digits), s) := by
  obtain ⟨b, rest, rfl⟩ := List.exists_cons_of_ne_nil hne
  obtain ⟨hspace, hminus, hplus, -⟩ := hexDigit_class (hall b List.mem_cons_self)
  have hskip : (b :: rest ++ s).dropWhile isSpace = b :: rest ++ s := by
    rw [List.cons_append, List.dropWhile_cons_of_neg (by simp [hspace])]
  have hsign : splitSign (b :: rest) = (false, b :: rest) := by
    unfold splitSign
    split
    · rename_i heq
      exact absurd (List.cons.inj heq).1 hminus
    · rename_i heq
      exact absurd (List.cons.inj heq).1 hplus
    · rfl
  have hmark : dropHexMark (b :: rest) = b :: rest := by
    unfold dropHexMark
    split
    · rename_i x d tail heq
      have hx := hexDigit_class (hall x (by rw [heq]; simp))
      rw [if_neg (by tauto), heq]
    · rfl
  have hdigits : (b :: rest).takeWhile isHexDigit = b :: rest :=
    List.takeWhile_eq_self_iff.mpr hall
  unfold scanHex
  dsimp only
  rw [hskip, List.take_left, hsign]
  dsimp only
  rw [hmark, hdigits, if_neg hne, Nat.sub_self, Nat.zero_add, List.drop_left]
  rfl

end CString
