import Airbridge.Usb.DeviceUri

/-!
# Strings in JSON

`m2022_json_string` (`json.c`) writes a string as a quoted literal, byte by
byte.  `readJsonString` reads a literal in front of a text: all escapes of
JSON, the code points of the basic plane in UTF-8, and nothing but complete
escapes and bytes from 0x20 on.

* `JsonText` is the text between the quotes.  In such a text no quote stands
  unescaped, and every backslash belongs to a complete escape.
* `readJsonString_jsonString`: what is written reads back, whatever follows it.
-/

namespace Airbridge.Common

open Airbridge.Qpdl (ascii)
open Airbridge.Usb (hex4)
open CString (isHexDigit hexValue)

/-! ## Writing -/

/-- A byte as `m2022_json_string` writes it. -/
def jsonChar (c : UInt8) : CString :=
  if c = 34 then ascii "\\\""
  else if c = 92 then ascii "\\\\"
  else if c = 10 then ascii "\\n"
  else if c = 13 then ascii "\\r"
  else if c = 9 then ascii "\\t"
  else if c < 0x20 then ascii "\\u" ++ hex4 c.toUInt16
  else [c]

/-- `m2022_json_string`; no string is the literal `null`. -/
def jsonString : Option CString → CString
  | none => ascii "null"
  | some s => 34 :: s.flatMap jsonChar ++ [34]

/-! ## Reading -/

/-- The byte that a backslash and this byte stand for. -/
def shortEscape (e : UInt8) : Option UInt8 :=
  if e = 34 ∨ e = 92 ∨ e = 47 then some e
  else if e = 98 then some 8
  else if e = 102 then some 12
  else if e = 110 then some 10
  else if e = 114 then some 13
  else if e = 116 then some 9
  else none

/-- The UTF-8 encoding of a code point of the basic plane. -/
def utf8 (n : Nat) : CString :=
  if n < 0x80 then [UInt8.ofNat n]
  else if n < 0x800 then [UInt8.ofNat (0xC0 + n / 64), UInt8.ofNat (0x80 + n % 64)]
  else [UInt8.ofNat (0xE0 + n / 4096), UInt8.ofNat (0x80 + n / 64 % 64),
    UInt8.ofNat (0x80 + n % 64)]

/-- The code units that are no code points. -/
def isSurrogate (n : Nat) : Bool := 0xD800 ≤ n && n < 0xE000

/-- Reads up to the closing quote: the string, and the text behind the quote. -/
def readJsonText : CString → Option (CString × CString)
  | [] => none
  | c :: text =>
    if c = 34 then some ([], text)
    else if c = 92 then
      match text with
      | 117 :: h0 :: h1 :: h2 :: h3 :: text =>
        let digits := [h0, h1, h2, h3]
        if digits.all isHexDigit && !isSurrogate (hexValue digits) then
          (readJsonText text).map fun r => (utf8 (hexValue digits) ++ r.1, r.2)
        else none
      | e :: text =>
        match shortEscape e with
        | some b => (readJsonText text).map fun r => (b :: r.1, r.2)
        | none => none
      | [] => none
    else if c < 0x20 then none
    else (readJsonText text).map fun r => (c :: r.1, r.2)

/-- Reads a literal in front of a text. -/
def readJsonString : CString → Option (CString × CString)
  | 34 :: text => readJsonText text
  | _ => none

/-! ## One byte -/

/-- A byte below 0x20 is written with two zeros and its two digits. -/
theorem hex4_control {c : UInt8} (hc : c < 0x20) :
    hexValue (hex4 c.toUInt16) = c.toNat ∧ utf8 c.toNat = [c] ∧ isSurrogate c.toNat = false := by
  have hlt : c.toNat < 0x20 := UInt8.lt_iff_toNat_lt.mp hc
  refine ⟨?_, ?_, ?_⟩
  · rw [Usb.hexValue_hex4, UInt8.toNat_toUInt16]
  · rw [utf8, if_pos (by omega), UInt8.ofNat_toNat]
  · rw [isSurrogate, Bool.and_eq_false_iff]
    exact .inl (decide_eq_false (by omega))

/-- A byte is written as a backslash and a letter, as a code point, or as
itself. -/
theorem jsonChar_cases (c : UInt8) :
    (∃ e, jsonChar c = [92, e] ∧ shortEscape e = some c) ∨
      c < 0x20 ∧ jsonChar c = 92 :: 117 :: hex4 c.toUInt16 ∨
      0x20 ≤ c ∧ c ≠ 34 ∧ c ≠ 92 ∧ jsonChar c = [c] := by
  unfold jsonChar
  split_ifs with hquote hslash hnewline hreturn htab hcontrol
  · exact .inl ⟨34, rfl, by rw [hquote]; rfl⟩
  · exact .inl ⟨92, rfl, by rw [hslash]; rfl⟩
  · exact .inl ⟨110, rfl, by rw [hnewline]; rfl⟩
  · exact .inl ⟨114, rfl, by rw [hreturn]; rfl⟩
  · exact .inl ⟨116, rfl, by rw [htab]; rfl⟩
  · exact .inr (.inl ⟨hcontrol, rfl⟩)
  · exact .inr (.inr ⟨UInt8.not_lt.mp hcontrol, hquote, hslash, rfl⟩)

/-! ### What is read of each kind -/

theorem readJsonText_plain {c : UInt8} (hle : 0x20 ≤ c) (hquote : c ≠ 34) (hslash : c ≠ 92)
    (text : CString) :
    readJsonText (c :: text) = (readJsonText text).map fun r => (c :: r.1, r.2) := by
  conv_lhs => unfold readJsonText
  rw [if_neg hquote, if_neg hslash, if_neg (UInt8.not_lt.mpr hle)]

theorem readJsonText_escape {e b : UInt8} (he : shortEscape e = some b) (text : CString) :
    readJsonText (92 :: e :: text) = (readJsonText text).map fun r => (b :: r.1, r.2) := by
  have hu : e ≠ 117 := by
    rintro rfl
    exact absurd he (by simp [shortEscape])
  conv_lhs => unfold readJsonText
  rw [if_neg (by decide), if_pos rfl]
  split
  · rename_i heq
    exact absurd (List.cons.inj heq).1 hu
  · rename_i heq
    obtain ⟨rfl, rfl⟩ := List.cons.inj heq
    rw [he]
  · rename_i heq
    exact absurd heq (List.cons_ne_nil _ _)

theorem readJsonText_unicode {digits : CString} (hlen : digits.length = 4)
    (hall : ∀ b ∈ digits, isHexDigit b = true) (hvalue : isSurrogate (hexValue digits) = false)
    (text : CString) :
    readJsonText (92 :: 117 :: (digits ++ text)) =
      (readJsonText text).map fun r => (utf8 (hexValue digits) ++ r.1, r.2) := by
  match digits, hlen with
  | [h0, h1, h2, h3], _ =>
    have hdigits : ([h0, h1, h2, h3].all isHexDigit && !isSurrogate (hexValue [h0, h1, h2, h3])) =
        true := by
      rw [hvalue, Bool.not_false, Bool.and_true]
      exact List.all_eq_true.mpr hall
    conv_lhs => unfold readJsonText
    rw [if_neg (by decide), if_pos rfl]
    exact if_pos hdigits

/-- A byte that was written is read, and the text behind it. -/
theorem readJsonText_jsonChar (c : UInt8) (text : CString) :
    readJsonText (jsonChar c ++ text) = (readJsonText text).map fun r => (c :: r.1, r.2) := by
  rcases jsonChar_cases c with ⟨e, hc, he⟩ | ⟨hcontrol, hc⟩ | ⟨hle, hquote, hslash, hc⟩
  · rw [hc]
    exact readJsonText_escape he text
  · obtain ⟨hvalue, hutf, hsurrogate⟩ := hex4_control hcontrol
    rw [hc, List.cons_append, List.cons_append,
      readJsonText_unicode rfl (Usb.isHexDigit_hex4 _) (by rw [hvalue]; exact hsurrogate), hvalue,
      hutf]
    rfl
  · rw [hc]
    exact readJsonText_plain hle hquote hslash text

/-- A string that was written is read, whatever follows its literal. -/
theorem readJsonString_jsonString (s rest : CString) :
    readJsonString (jsonString (some s) ++ rest) = some (s, rest) := by
  have hread : readJsonText (s.flatMap jsonChar ++ 34 :: rest) = some (s, rest) := by
    induction s with
    | nil =>
      rw [List.flatMap_nil, List.nil_append, readJsonText.eq_def]
      exact if_pos rfl
    | cons c s ih =>
      rw [List.flatMap_cons, List.append_assoc, readJsonText_jsonChar, ih]
      rfl
  rw [jsonString]
  show readJsonText (s.flatMap jsonChar ++ [34] ++ rest) = some (s, rest)
  rw [List.append_assoc]
  exact hread

/-! ## The text between the quotes -/

/-- A byte that stands for itself, or a complete escape. -/
inductive JsonUnit : CString → Prop
  | plain {c : UInt8} (hle : 0x20 ≤ c) (hquote : c ≠ 34) (hslash : c ≠ 92) : JsonUnit [c]
  | escape {e b : UInt8} (he : shortEscape e = some b) : JsonUnit [92, e]
  | unicode {digits : CString} (hlen : digits.length = 4)
      (hall : ∀ b ∈ digits, isHexDigit b = true) : JsonUnit (92 :: 117 :: digits)

/-- The text of a literal. -/
inductive JsonText : CString → Prop
  | nil : JsonText []
  | cons {unit text : CString} (hunit : JsonUnit unit) (htext : JsonText text) :
      JsonText (unit ++ text)

/-- The byte behind this text is escaped: the one before it is a backslash that
is not escaped itself. -/
def escapedBehind (text : CString) : Bool :=
  text.foldl (fun escaped b => !escaped && b == 92) false

theorem escapedBehind_append {front : CString} (h : escapedBehind front = false)
    (text : CString) : escapedBehind (front ++ text) = escapedBehind text := by
  unfold escapedBehind at h ⊢
  rw [List.foldl_append, h]

theorem shortEscape_class {e b : UInt8} (h : shortEscape e = some b) : 0x20 ≤ e := by
  have hsome : (shortEscape e).isSome = true := by
    rw [h]
    rfl
  revert hsome
  refine Bits.forall_byte (P := fun e => (shortEscape e).isSome = true → 0x20 ≤ e) ?_ e
  decide +kernel

theorem hexDigit_plain {b : UInt8} (h : isHexDigit b = true) : 0x20 ≤ b ∧ b ≠ 34 ∧ b ≠ 92 := by
  revert h
  refine Bits.forall_byte (P := fun b => isHexDigit b = true → 0x20 ≤ b ∧ b ≠ 34 ∧ b ≠ 92) ?_ b
  decide +kernel

/-- No byte of a unit is a control character. -/
theorem JsonUnit.control {unit : CString} (h : JsonUnit unit) : ∀ b ∈ unit, 0x20 ≤ b := by
  intro b hb
  cases h with
  | plain hle =>
    rw [List.mem_singleton.mp hb]
    exact hle
  | escape he =>
    rw [List.mem_cons, List.mem_singleton] at hb
    rcases hb with rfl | rfl
    · decide
    · exact shortEscape_class he
  | unicode _ hall =>
    rw [List.mem_cons, List.mem_cons] at hb
    rcases hb with rfl | rfl | hb
    · decide
    · decide
    · exact (hexDigit_plain (hall b hb)).1

/-- Nothing behind a unit is escaped by it. -/
theorem JsonUnit.escapedBehind_eq {unit : CString} (h : JsonUnit unit) :
    escapedBehind unit = false := by
  cases h with
  | plain _ _ hslash => simpa [escapedBehind] using hslash
  | escape => rfl
  | @unicode digits _ hall =>
    have hdigits : escapedBehind digits = false := by
      clear * - hall
      induction digits with
      | nil => rfl
      | cons b digits ih =>
        have hb : b ≠ 92 := (hexDigit_plain (hall b List.mem_cons_self)).2.2
        have hone : escapedBehind [b] = false := by simpa [escapedBehind] using hb
        exact (escapedBehind_append hone digits).trans
          (ih fun d hd => hall d (List.mem_cons_of_mem b hd))
    exact hdigits

/-- A quote or a backslash of a unit is escaped, or the backslash it starts
with. -/
theorem JsonUnit.special {unit before after : CString} {c : UInt8} (h : JsonUnit unit)
    (hc : c = 34 ∨ c = 92) (hsplit : unit = before ++ c :: after) :
    escapedBehind before = true ∨ before = [] ∧ c = 92 := by
  cases before with
  | nil =>
    refine .inr ⟨rfl, hc.resolve_left ?_⟩
    rintro rfl
    cases h with
    | plain _ hquote => exact hquote (List.cons.inj hsplit).1
    | escape => exact absurd (List.cons.inj hsplit).1 (by decide)
    | unicode => exact absurd (List.cons.inj hsplit).1 (by decide)
  | cons d before =>
    left
    rw [List.cons_append] at hsplit
    cases h with
    | plain => exact absurd (List.cons.inj hsplit).2 (by simp)
    | escape =>
      obtain ⟨rfl, htail⟩ := List.cons.inj hsplit
      cases before with
      | nil => rfl
      | cons b before => exact absurd (List.cons.inj htail).2 (by simp)
    | @unicode digits _ hall =>
      obtain ⟨rfl, htail⟩ := List.cons.inj hsplit
      have hmem : c ∈ 117 :: digits := by
        rw [htail]
        exact List.mem_append_right before List.mem_cons_self
      rcases List.mem_cons.mp hmem with rfl | hmem
      · exact absurd hc (by decide)
      · obtain ⟨-, hquote, hslash⟩ := hexDigit_plain (hall c hmem)
        exact absurd hc (by simp [hquote, hslash])

theorem JsonText.control {text : CString} (h : JsonText text) : ∀ b ∈ text, 0x20 ≤ b := by
  induction h with
  | nil => simp
  | cons hunit _ ih =>
    intro b hb
    rcases List.mem_append.mp hb with hb | hb
    · exact hunit.control b hb
    · exact ih b hb

/-- A quote or a backslash is escaped, or a backslash with which a complete
escape begins. -/
theorem JsonText.special {text : CString} (h : JsonText text) {before after : CString} {c : UInt8}
    (hc : c = 34 ∨ c = 92) (hsplit : text = before ++ c :: after) :
    escapedBehind before = true ∨ c = 92 ∧ ∃ unit, JsonUnit unit ∧ unit <+: c :: after := by
  induction h generalizing before with
  | nil => exact absurd hsplit (by simp)
  | @cons unit text hunit _ ih =>
    rw [List.append_eq_append_iff] at hsplit
    rcases hsplit with ⟨front, rfl, hrest⟩ | ⟨tail, hfront, htail⟩
    · rw [escapedBehind_append hunit.escapedBehind_eq]
      exact ih hrest
    · cases tail with
      | nil =>
        rw [List.append_nil] at hfront
        have hnone : escapedBehind [] = false := rfl
        have hnext := ih (show text = [] ++ c :: after from htail.symm)
        rw [hnone] at hnext
        exact .inr (hnext.resolve_left (by decide))
      | cons b tail =>
        rw [List.cons_append, List.cons.injEq] at htail
        obtain ⟨rfl, rfl⟩ := htail
        rcases hunit.special hc hfront with hescaped | ⟨rfl, hslash⟩
        · exact .inl hescaped
        · refine .inr ⟨hslash, unit, hunit, ?_⟩
          rw [hfront]
          exact List.prefix_append (c :: tail) text

theorem jsonChar_unit (c : UInt8) : JsonUnit (jsonChar c) := by
  rcases jsonChar_cases c with ⟨e, hc, he⟩ | ⟨-, hc⟩ | ⟨hle, hquote, hslash, hc⟩
  · rw [hc]
    exact .escape he
  · rw [hc]
    exact .unicode rfl (Usb.isHexDigit_hex4 _)
  · rw [hc]
    exact .plain hle hquote hslash

theorem flatMap_jsonChar (s : CString) : JsonText (s.flatMap jsonChar) := by
  induction s with
  | nil => exact .nil
  | cons c s ih => exact .cons (jsonChar_unit c) ih

/-! ## Literals in a longer text -/

/-- What is read of a text is read of every longer one. -/
theorem readJsonText_append {text s rest : CString} (h : readJsonText text = some (s, rest))
    (more : CString) : readJsonText (text ++ more) = some (s, rest ++ more) := by
  fun_induction readJsonText text generalizing s rest with
  | case1 => cases h
  | case2 text =>
    cases h
    rw [List.cons_append, readJsonText.eq_def]
    exact if_pos rfl
  | case3 h0 h1 h2 h3 text digits hdigits _ =>
    rename_i ih
    obtain ⟨r, hr, heq⟩ := Option.map_eq_some_iff.mp h
    cases heq
    rw [Bool.and_eq_true, Bool.not_eq_true', List.all_eq_true] at hdigits
    have hread := readJsonText_unicode (show digits.length = 4 from rfl) hdigits.1 hdigits.2
      (text ++ more)
    rw [ih hr] at hread
    exact hread
  | case4 => cases h
  | case5 e text _ b he _ ih =>
    obtain ⟨r, hr, heq⟩ := Option.map_eq_some_iff.mp h
    cases heq
    rw [List.cons_append, List.cons_append, readJsonText_escape he, ih hr]
    rfl
  | case6 => cases h
  | case7 => cases h
  | case8 => cases h
  | case9 c text hquote hslash hcontrol ih =>
    obtain ⟨r, hr, heq⟩ := Option.map_eq_some_iff.mp h
    cases heq
    rw [List.cons_append, readJsonText_plain (UInt8.not_lt.mp hcontrol) hquote hslash, ih hr]
    rfl

theorem readJsonString_append {text s rest : CString} (h : readJsonString text = some (s, rest))
    (more : CString) : readJsonString (text ++ more) = some (s, rest ++ more) := by
  unfold readJsonString at h
  split at h
  · exact readJsonText_append h more
  · cases h

/-- A literal that is cut short is none. -/
theorem readJsonString_cut {text s cut : CString} (h : readJsonString text = some (s, []))
    (hcut : cut <+: text) (hne : cut ≠ text) : readJsonString cut = none := by
  obtain ⟨more, rfl⟩ := hcut
  cases hread : readJsonString cut with
  | none => rfl
  | some r =>
    have hwhole := readJsonString_append hread more
    rw [h, Option.some_inj] at hwhole
    have hmore : more = [] := (List.append_eq_nil_iff.mp (congrArg Prod.snd hwhole).symm).2
    rw [hmore, List.append_nil] at hne
    exact absurd rfl hne

/-- The literal of a string is quoted; between the quotes no control character
stands and no quote that is not escaped, and every backslash that is not escaped
begins a complete escape.  Whatever follows the literal, the string is read back.
So another string has another literal, and no literal ends early. -/
theorem jsonString_roundtrip (s : CString) :
    (∃ body, jsonString (some s) = 34 :: body ++ [34] ∧ JsonText body ∧
      (∀ b ∈ body, 0x20 ≤ b) ∧
      (∀ before after, body = before ++ 34 :: after → escapedBehind before = true) ∧
      ∀ before after, body = before ++ 92 :: after →
        escapedBehind before = true ∨ ∃ unit, JsonUnit unit ∧ unit <+: 92 :: after) ∧
      (∀ rest, readJsonString (jsonString (some s) ++ rest) = some (s, rest)) ∧
      (∀ t, jsonString (some t) = jsonString (some s) → t = s) ∧
      ∀ cut, cut <+: jsonString (some s) → cut ≠ jsonString (some s) →
        readJsonString cut = none := by
  have hbody := flatMap_jsonChar s
  have hread (t : CString) : readJsonString (jsonString (some t)) = some (t, []) := by
    have h := readJsonString_jsonString t []
    rwa [List.append_nil] at h
  refine ⟨⟨s.flatMap jsonChar, rfl, hbody, hbody.control, ?_, ?_⟩, readJsonString_jsonString s,
    ?_, ?_⟩
  · intro before after hsplit
    refine (hbody.special (.inl rfl) hsplit).resolve_right ?_
    rintro ⟨hslash, -⟩
    exact absurd hslash (by decide)
  · intro before after hsplit
    exact (hbody.special (.inr rfl) hsplit).imp_right And.right
  · intro t heq
    have h := hread t
    rw [heq, hread s, Option.some_inj] at h
    exact (congrArg Prod.fst h).symm
  · intro cut hcut hne
    exact readJsonString_cut (hread s) hcut hne

end Airbridge.Common
