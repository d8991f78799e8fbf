import Airbridge.Lib.Buffer
import Airbridge.Lib.CString
import Airbridge.Qpdl.Records
import Mathlib.Data.List.Find

/-!
# IEEE 1284 device IDs

`m2022_ieee1284_parse` (`ieee1284.c`) splits a device ID such as
`MFG:Samsung;MDL:M2020 Series;` into fields that point into it, counts all of
them and stores as many as there is room for.  `m2022_ieee1284_get` looks a
key up, under any of its names, among the first 32.

`Segment` says what a device ID is printed from: fields with blanks around
their keys and values, and segments that are no fields.  `SameKey` says when
two texts name the same key.
-/

namespace Airbridge.Usb

open Airbridge.Qpdl (Bytes ascii)
open CString (strchr memchr caseEq caseEqN fit)

/-! ## The parser -/

/-- `m2022_ieee1284_field_t`. -/
structure Ieee1284Field where
  key : CString
  keyLen : Nat
  value : CString
  valueLen : Nat
deriving Repr, DecidableEq

def isBlank (b : UInt8) : Bool := b == 32 || b == 9

/-- The first loop of `trim`. -/
def trimStart : CString → Nat → CString × Nat
  | s, 0 => (s, 0)
  | [], len + 1 => ([], len + 1)
  | b :: s, len + 1 => if isBlank b then trimStart s len else (b :: s, len + 1)

/-- The second loop of `trim`. -/
def trimEnd (s : CString) : Nat → Nat
  | 0 => 0
  | len + 1 => if isBlank (s.getD len 0) then trimEnd s len else len + 1

def trim (s : CString) (len : Nat) : CString × Nat :=
  let (s, len) := trimStart s len
  (s, trimEnd s len)

/-- The field in the first `seglen` bytes of a text. -/
def segmentField (p : CString) (seglen : Nat) : Option Ieee1284Field :=
  match memchr p 58 seglen with
  | none => none
  | some colon =>
    let (k, kl) := trim p (p.length - colon.length)
    let (v, vl) := trim (colon.drop 1) (seglen - (p.length - colon.length) - 1)
    if 0 < kl then some ⟨k, kl, v, vl⟩ else none

/-- The length of the segment at `p`, and the text behind it. -/
def segmentEnd (p : CString) : Nat × Option CString :=
  match strchr p 59 with
  | some rest => (p.length - rest.length, some (rest.drop 1))
  | none => (p.length, none)

/-- How much text is left. -/
def remaining : Option CString → Nat
  | none => 0
  | some p => p.length + 1

theorem remaining_segmentEnd {p : CString} (h : p ≠ []) :
    remaining (segmentEnd p).2 < remaining (some p) := by
  unfold segmentEnd
  cases hend : strchr p 59 with
  | none => exact Nat.succ_pos _
  | some rest =>
    obtain ⟨t, tail, rfl, rfl, -⟩ := CString.strchr_eq_some hend
    simp [remaining]

/-- A field goes into the next slot if there is one, and is counted. -/
def storeField (max : Nat) (s : (Nat → Ieee1284Field) × Nat) (field : Ieee1284Field) :
    (Nat → Ieee1284Field) × Nat :=
  (if s.2 < max then Function.update s.1 s.2 field else s.1, s.2 + 1)

/-- The loop of the parser over the slots and the count. -/
def parseLoop (max : Nat) (p : Option CString) (s : (Nat → Ieee1284Field) × Nat) :
    (Nat → Ieee1284Field) × Nat :=
  match p with
  | none => s
  | some p =>
    if _h : p = [] then s
    else
      parseLoop max (segmentEnd p).2
        (((segmentField p (segmentEnd p).1).map (storeField max s)).getD s)
termination_by remaining p
decreasing_by exact remaining_segmentEnd _h

/-- `m2022_ieee1284_parse`: the slots behind the call, and the number of fields. -/
def ieee1284Parse (id : Option CString) (fields : Nat → Ieee1284Field) (max : Nat) :
    (Nat → Ieee1284Field) × Nat :=
  parseLoop max id (fields, 0)

/-! ## What the parser counts -/

/-- The fields of a text, in order. -/
def idFields (p : Option CString) : List Ieee1284Field :=
  match p with
  | none => []
  | some p =>
    if _h : p = [] then []
    else (segmentField p (segmentEnd p).1).toList ++ idFields (segmentEnd p).2
termination_by remaining p
decreasing_by exact remaining_segmentEnd _h

/-- Slots `n` on hold the fields found as far as there is room. -/
def storeFields (max n : Nat) (found : List Ieee1284Field) (fields : Nat → Ieee1284Field)
    (i : Nat) : Ieee1284Field :=
  if n ≤ i ∧ i < max then found.getD (i - n) (fields i) else fields i

/-- Storing one field, and then the others behind it. -/
theorem storeFields_cons (max n : Nat) (field : Ieee1284Field) (found : List Ieee1284Field)
    (fields : Nat → Ieee1284Field) :
    storeFields max n (field :: found) fields =
      storeFields max (n + 1) found (if n < max then Function.update fields n field else fields) := by
  funext i
  unfold storeFields
  by_cases hi : i = n
  · subst hi
    by_cases hmax : i < max
    · rw [if_pos ⟨le_refl i, hmax⟩, if_neg (by omega), if_pos hmax, Function.update_self,
        Nat.sub_self, List.getD_cons_zero]
    · rw [if_neg (by omega), if_neg (by omega), if_neg hmax]
  · have hslot : (if n < max then Function.update fields n field else fields) i = fields i := by
      split_ifs
      · exact Function.update_of_ne hi _ _
      · rfl
    rw [hslot]
    by_cases hin : n ≤ i ∧ i < max
    · have hindex : i - n = i - (n + 1) + 1 := by omega
      rw [if_pos hin, if_pos (by omega), hindex, List.getD_cons_succ]
    · rw [if_neg hin, if_neg (by omega)]

theorem storeFields_nil (max n : Nat) (fields : Nat → Ieee1284Field) :
    storeFields max n [] fields = fields := by
  funext i
  unfold storeFields
  rw [List.getD_nil, ite_self]

/-- The loop stores and counts the fields of what is left of the text. -/
theorem parseLoop_eq (max : Nat) (p : Option CString) (s : (Nat → Ieee1284Field) × Nat) :
    parseLoop max p s = (storeFields max s.2 (idFields p) s.1, s.2 + (idFields p).length) := by
  induction p, s using parseLoop.induct max with
  | case1 s =>
    rw [parseLoop, idFields, storeFields_nil]
    rfl
  | case2 s =>
    rw [parseLoop, idFields, dif_pos rfl, dif_pos rfl, storeFields_nil]
    rfl
  | case3 s p hne ih =>
    rw [parseLoop, idFields, dif_neg hne, dif_neg hne, ih]
    cases segmentField p (segmentEnd p).1 with
    | none => rfl
    | some field =>
      simp only [Option.map_some, Option.getD_some, Option.toList_some, List.singleton_append,
        List.length_cons, storeField, storeFields_cons]
      rw [Nat.add_right_comm, Nat.add_assoc]

/-- The parser counts the fields and stores the first ones. -/
theorem ieee1284Parse_eq (id : Option CString) (fields : Nat → Ieee1284Field) (max : Nat) :
    ieee1284Parse id fields max =
      (fun i => if i < max then (idFields id).getD i (fields i) else fields i,
        (idFields id).length) := by
  rw [ieee1284Parse, parseLoop_eq, Nat.zero_add]
  unfold storeFields
  simp only [Nat.zero_le, true_and, Nat.sub_zero]

/-! ## Trimming -/

/-- A text of blanks. -/
def Blank (s : CString) : Prop := ∀ b ∈ s, isBlank b = true

/-- A text that neither starts nor ends in a blank. -/
def Trimmed (s : CString) : Prop :=
  (∀ b, s.head? = some b → isBlank b = false) ∧ ∀ b, s.getLast? = some b → isBlank b = false

theorem trimStart_blank {pad : CString} (hpad : Blank pad) (s : CString) (len : Nat) :
    trimStart (pad ++ s) (pad.length + len) = trimStart s len := by
  induction pad with
  | nil => simp
  | cons b pad ih =>
    rw [List.cons_append, List.length_cons, Nat.add_right_comm, trimStart,
      if_pos (hpad b List.mem_cons_self)]
    exact ih fun c hc => hpad c (List.mem_cons_of_mem b hc)

/-- A text that does not start in a blank stays. -/
theorem trimStart_stop {s : CString} {len : Nat}
    (h : len = 0 ∨ ∀ b, s.head? = some b → isBlank b = false) : trimStart s len = (s, len) := by
  cases len with
  | zero => cases s <;> rfl
  | succ len =>
    have hhead := h.resolve_left (Nat.succ_ne_zero len)
    cases s with
    | nil => rfl
    | cons b s =>
      rw [trimStart, if_neg]
      rw [hhead b rfl]
      exact Bool.false_ne_true

theorem trimEnd_blank {t pad : CString} (hpad : Blank pad) (rest : CString) :
    trimEnd (t ++ pad ++ rest) (t.length + pad.length) = trimEnd (t ++ pad ++ rest) t.length := by
  induction pad using List.reverseRecOn generalizing rest with
  | nil => rfl
  | append_singleton pad b ih =>
    have hassoc : t ++ (pad ++ [b]) ++ rest = t ++ pad ++ b :: rest := by simp
    have hlast : (t ++ pad ++ b :: rest).getD (t.length + pad.length) 0 = b := by
      rw [List.getD_eq_getElem?_getD, ← List.length_append, List.getElem?_append_right (le_refl _),
        Nat.sub_self]
      rfl
    have hblank : isBlank b = true := hpad b (by simp)
    rw [hassoc, List.length_append, List.length_singleton, ← Nat.add_assoc, trimEnd, hlast,
      if_pos hblank]
    exact ih (fun c hc => hpad c (List.mem_append_left [b] hc)) (b :: rest)

/-- A text that does not end in a blank stays. -/
theorem trimEnd_stop {t : CString} (h : ∀ b, t.getLast? = some b → isBlank b = false)
    (rest : CString) : trimEnd (t ++ rest) t.length = t.length := by
  induction t using List.reverseRecOn with
  | nil => rfl
  | append_singleton t b _ =>
    have hlast : (t ++ [b] ++ rest).getD t.length 0 = b := by
      simp [List.getD_eq_getElem?_getD]
    rw [List.length_append, List.length_singleton, trimEnd, hlast, if_neg]
    rw [h b (by simp)]
    exact Bool.false_ne_true

/-- Trimming finds a text between blanks. -/
theorem trim_padded {a t b : CString} (ha : Blank a) (ht : Trimmed t) (hb : Blank b)
    (rest : CString) :
    (trim (a ++ t ++ b ++ rest) (a ++ t ++ b).length).2 = t.length ∧
      (trim (a ++ t ++ b ++ rest) (a ++ t ++ b).length).1.take t.length = t := by
  have hlen : (a ++ t ++ b).length = a.length + (t.length + b.length) := by
    simp only [List.length_append, Nat.add_assoc]
  have htext : a ++ t ++ b ++ rest = a ++ (t ++ b ++ rest) := by
    simp only [List.append_assoc]
  rw [hlen, htext]
  unfold trim
  rw [trimStart_blank ha]
  cases t with
  | nil =>
    -- the first loop takes the blanks behind the text too
    have hempty := trimStart_blank hb rest 0
    rw [Nat.add_zero] at hempty
    rw [List.nil_append, List.length_nil, Nat.zero_add, hempty, trimStart_stop (.inl rfl)]
    exact ⟨rfl, rfl⟩
  | cons c t =>
    have hhead : ∀ b', (c :: t ++ b ++ rest).head? = some b' → isBlank b' = false := fun b' hb' =>
      ht.1 b' hb'
    rw [trimStart_stop (.inr hhead)]
    dsimp only
    rw [trimEnd_blank hb, List.append_assoc, trimEnd_stop ht.2, List.take_left]
    exact ⟨rfl, rfl⟩

/-! ## Printed device IDs -/

/-- A field that can be printed. -/
structure IdField where
  key : CString
  value : CString
  key_ne : key ≠ []
  key_plain : 58 ∉ key ∧ 59 ∉ key ∧ 0 ∉ key
  value_plain : 59 ∉ value ∧ 0 ∉ value
  key_trimmed : Trimmed key
  value_trimmed : Trimmed value

/-- A segment that is no field: it has no colon, or nothing but blanks in front
of the first one. -/
structure OtherSegment where
  text : CString
  plain : 59 ∉ text ∧ 0 ∉ text
  no_key : 58 ∉ text ∨ ∃ pad rest, Blank pad ∧ text = pad ++ 58 :: rest

/-- The segments of a device ID; the texts of blanks stand around the key and
around the value. -/
inductive Segment where
  | field (f : IdField) (beforeKey behindKey beforeValue behindValue : { s : CString // Blank s })
  | other (o : OtherSegment)

def Segment.text : Segment → CString
  | .field f beforeKey behindKey beforeValue behindValue =>
    (beforeKey.val ++ f.key ++ behindKey.val) ++
      58 :: (beforeValue.val ++ f.value ++ behindValue.val)
  | .other o => o.text

def Segment.field? : Segment → Option IdField
  | .field f _ _ _ _ => some f
  | .other _ => none

/-- The segments with semicolons between them, and one behind the last if the ID
is closed. -/
def printId (closed : Bool) : List Segment → CString
  | [] => []
  | [segment] => segment.text ++ if closed then [59] else []
  | segment :: segments => segment.text ++ 59 :: printId closed segments

/-- A slot holds a field. -/
structure Ieee1284Field.Holds (slot : Ieee1284Field) (f : IdField) : Prop where
  keyLen : slot.keyLen = f.key.length
  key : slot.key.take slot.keyLen = f.key
  valueLen : slot.valueLen = f.value.length
  value : slot.value.take slot.valueLen = f.value

theorem Blank.not_mem {s : CString} (h : Blank s) {b : UInt8} (hb : isBlank b = false) : b ∉ s := by
  intro hmem
  rw [h b hmem] at hb
  exact absurd hb (by decide)

theorem Segment.not_mem_text (segment : Segment) : 59 ∉ segment.text := by
  cases segment with
  | field f beforeKey behindKey beforeValue behindValue =>
    have hblank (s : { s : CString // Blank s }) : 59 ∉ s.val := s.property.not_mem (by decide)
    simp [Segment.text, hblank, f.key_plain.2.1, f.value_plain.1]
  | other o => exact o.plain.1

/-- A printed field is found. -/
theorem segmentField_field (f : IdField)
    (beforeKey behindKey beforeValue behindValue : { s : CString // Blank s }) (rest : CString) :
    let segment := Segment.field f beforeKey behindKey beforeValue behindValue
    ∃ slot, segmentField (segment.text ++ rest) segment.text.length = some slot ∧ slot.Holds f := by
  intro segment
  set padded := beforeKey.val ++ f.key ++ behindKey.val with hpadded
  set value := beforeValue.val ++ f.value ++ behindValue.val with hvalue
  have hblank (s : { s : CString // Blank s }) : 58 ∉ s.val := s.property.not_mem (by decide)
  have hcolon : 58 ∉ padded := by
    simp [hpadded, hblank, f.key_plain.1]
  have htext : segment.text ++ rest = padded ++ 58 :: (value ++ rest) := by
    simp [segment, Segment.text, hpadded, hvalue]
  have hlen : segment.text.length = padded.length + (value.length + 1) := by
    simp [segment, Segment.text, hpadded, hvalue]
    omega
  have hmemchr : memchr (padded ++ 58 :: (value ++ rest)) 58 segment.text.length =
      some (58 :: (value ++ rest)) := CString.memchr_append hcolon _ (by omega)
  have hkl : (padded ++ 58 :: (value ++ rest)).length - (58 :: (value ++ rest)).length =
      padded.length := by
    rw [List.length_append, Nat.add_sub_cancel]
  have hvl : segment.text.length - padded.length - 1 = value.length := by omega
  obtain ⟨hkeyLen, hkey⟩ := trim_padded beforeKey.property f.key_trimmed behindKey.property
    (58 :: (value ++ rest))
  obtain ⟨hvalueLen, hvalueText⟩ := trim_padded beforeValue.property f.value_trimmed
    behindValue.property rest
  have hpos : 0 < f.key.length := List.length_pos_of_ne_nil f.key_ne
  rw [htext]
  unfold segmentField
  rw [hmemchr]
  dsimp only
  rw [hkl, hvl, List.drop_one, List.tail_cons, if_pos (by rw [hkeyLen]; exact hpos)]
  refine ⟨_, rfl, hkeyLen, ?_, hvalueLen, ?_⟩
  · dsimp only
    rw [hkeyLen, hkey]
  · dsimp only
    rw [hvalueLen, hvalueText]

/-- Another segment is passed over. -/
theorem segmentField_other (o : OtherSegment) (rest : CString) :
    segmentField (o.text ++ rest) o.text.length = none := by
  unfold segmentField
  rcases o.no_key with hcolon | ⟨pad, tail, hpad, htext⟩
  · have hmemchr : memchr (o.text ++ rest) 58 o.text.length = none := by
      rw [memchr, List.take_left, if_neg hcolon]
    rw [hmemchr]
  · have hcolon : 58 ∉ pad := hpad.not_mem (by decide)
    have hmemchr : memchr (o.text ++ rest) 58 o.text.length = some (58 :: (tail ++ rest)) := by
      have hassoc : o.text ++ rest = pad ++ 58 :: (tail ++ rest) := by simp [htext]
      rw [hassoc]
      exact CString.memchr_append hcolon _ (by simp [htext])
    have hkl : (o.text ++ rest).length - (58 :: (tail ++ rest)).length = pad.length := by
      simp [htext]
    have htrim := (trim_padded (t := []) hpad ⟨by simp, by simp⟩ (b := []) (by simp [Blank])
      (58 :: (tail ++ rest))).1
    have hassoc : o.text ++ rest = pad ++ [] ++ [] ++ 58 :: (tail ++ rest) := by simp [htext]
    rw [hmemchr]
    dsimp only
    rw [hkl, if_neg]
    rw [hassoc]
    simpa using htrim

theorem Segment.zero_not_mem_text (segment : Segment) : 0 ∉ segment.text := by
  cases segment with
  | field f beforeKey behindKey beforeValue behindValue =>
    have hblank (s : { s : CString // Blank s }) : 0 ∉ s.val := s.property.not_mem (by decide)
    simp [Segment.text, hblank, f.key_plain.2.2, f.value_plain.2]
  | other o => exact o.plain.2

/-- A printed ID is a C string. -/
theorem zero_not_mem_printId (closed : Bool) (segments : List Segment) :
    0 ∉ printId closed segments := by
  induction segments with
  | nil => exact List.not_mem_nil
  | cons segment segments ih =>
    have htext := segment.zero_not_mem_text
    cases segments with
    | nil => cases closed <;> simp [printId, htext]
    | cons segment' segments =>
      rw [printId]
      · simp [htext, ih]
      · simp

/-- The segment at the front of a printed ID ends at its semicolon. -/
theorem segmentEnd_append (segment : Segment) (rest : CString) :
    segmentEnd (segment.text ++ 59 :: rest) = (segment.text.length, some rest) := by
  unfold segmentEnd
  rw [CString.strchr_append segment.not_mem_text]
  simp

theorem segmentEnd_last (segment : Segment) :
    segmentEnd segment.text = (segment.text.length, none) := by
  unfold segmentEnd
  rw [CString.strchr_eq_none segment.not_mem_text]

/-- The fields of a text that starts with a segment. -/
theorem idFields_segment (segment : Segment) {rest : CString} {next : Option CString}
    (hend : segmentEnd (segment.text ++ rest) = (segment.text.length, next))
    (hrest : rest = [] → next = none) {found : List IdField}
    (hnext : List.Forall₂ Ieee1284Field.Holds (idFields next) found) :
    List.Forall₂ Ieee1284Field.Holds (idFields (some (segment.text ++ rest)))
      (segment.field?.toList ++ found) := by
  cases segment with
  | field f beforeKey behindKey beforeValue behindValue =>
    obtain ⟨slot, hslot, hholds⟩ :=
      segmentField_field f beforeKey behindKey beforeValue behindValue rest
    have hne : (Segment.field f beforeKey behindKey beforeValue behindValue).text ++ rest ≠ [] := by
      simp [Segment.text]
    rw [idFields, dif_neg hne, hend, hslot]
    exact .cons hholds hnext
  | other o =>
    by_cases hempty : (Segment.other o).text ++ rest = []
    · rw [hrest (List.append_eq_nil_iff.mp hempty).2, idFields] at hnext
      rw [hempty, idFields, dif_pos rfl]
      exact hnext
    · rw [idFields, dif_neg hempty, hend, Segment.text, segmentField_other]
      exact hnext

/-- The fields of a printed ID are those it was printed from. -/
theorem idFields_printId (closed : Bool) (segments : List Segment) :
    List.Forall₂ Ieee1284Field.Holds (idFields (some (printId closed segments)))
      (segments.filterMap Segment.field?) := by
  induction segments with
  | nil =>
    rw [printId, idFields, dif_pos rfl]
    exact .nil
  | cons segment segments ih =>
    have hfound : (segment :: segments).filterMap Segment.field? =
        segment.field?.toList ++ segments.filterMap Segment.field? := by
      cases hfield : segment.field? with
      | none => rw [List.filterMap_cons_none hfield]; rfl
      | some f => rw [List.filterMap_cons_some hfield]; rfl
    rw [hfound]
    cases segments with
    | nil =>
      rw [printId]
      cases closed with
      | true =>
        refine idFields_segment segment (segmentEnd_append segment []) (by simp) ?_
        exact ih
      | false =>
        have hlast : segmentEnd (segment.text ++ []) = (segment.text.length, none) := by
          simpa using segmentEnd_last segment
        refine idFields_segment segment hlast (fun _ => rfl) ?_
        rw [idFields]
        exact .nil
    | cons segment' segments =>
      rw [printId]
      · exact idFields_segment segment (segmentEnd_append segment _) (by simp) ih
      · simp

/-- Parsing undoes printing: whatever blanks and other segments an ID was printed
with, the parser counts its fields, the first ones fill the slots there are, and
no other slot is touched. -/
theorem ieee1284Parse_printId (closed : Bool) (segments : List Segment)
    (slots : Nat → Ieee1284Field) (max : Nat) :
    let found := segments.filterMap Segment.field?
    let parsed := ieee1284Parse (some (printId closed segments)) slots max
    parsed.2 = found.length ∧
      (∀ i f, i < max → found[i]? = some f → (parsed.1 i).Holds f) ∧
      ∀ i, min found.length max ≤ i → parsed.1 i = slots i := by
  intro found parsed
  have hfields : List.Forall₂ Ieee1284Field.Holds _ found := idFields_printId closed segments
  have hlen := hfields.length_eq
  have hparsed : parsed = _ := ieee1284Parse_eq (some (printId closed segments)) slots max
  rw [hparsed]
  refine ⟨hlen, fun i f hi hf => ?_, fun i hi => ?_⟩
  · obtain ⟨hlt, hget⟩ := List.getElem?_eq_some_iff.mp hf
    have hholds := (List.forall₂_iff_get.mp hfields).2 i (by omega) hlt
    dsimp only
    rw [if_pos hi, List.getD_eq_getElem _ _ (by omega), ← hget]
    exact hholds
  · dsimp only
    by_cases hmax : i < max
    · rw [if_pos hmax, List.getD_eq_default _ _ (by omega)]
    · rw [if_neg hmax]

/-- An ID with blanks around a key and a value, a segment without a colon, and
no semicolon at the end. -/
example :
    let none : { s : CString // Blank s } := ⟨[], by simp [Blank]⟩
    let space : { s : CString // Blank s } := ⟨ascii " ", by simp [Blank, ascii, isBlank]⟩
    let mfg : IdField := ⟨ascii "MFG", ascii "Acme", by decide, by decide, by decide,
      by simp [Trimmed, ascii, isBlank], by simp [Trimmed, ascii, isBlank]⟩
    let last : IdField := ⟨ascii "LAST", ascii "end", by decide, by decide, by decide,
      by simp [Trimmed, ascii, isBlank], by simp [Trimmed, ascii, isBlank]⟩
    printId false [.field mfg space space space space,
      .other ⟨ascii "NOCOLON", by decide, .inl (by decide)⟩, .field last none none none none] =
        ascii " MFG : Acme ;NOCOLON;LAST:end" := by
  decide

/-! ## Looking a key up -/

/-- A row of `ALIASES` has three entries, some of them `NULL`. -/
def ALIASES : List (List (Option CString)) :=
  [[some (ascii "MFG"), some (ascii "MANUFACTURER"), none],
   [some (ascii "MDL"), some (ascii "MODEL"), none],
   [some (ascii "CMD"), some (ascii "COMMAND SET"), none],
   [some (ascii "SN"), some (ascii "SERN"), some (ascii "SERIALNUMBER")],
   [some (ascii "CLS"), some (ascii "CLASS"), none],
   [some (ascii "DES"), some (ascii "DESCRIPTION"), none]]

/-- The entries that the loops over a row visit. -/
def aliasNames : List (Option CString) → List CString
  | some name :: row => name :: aliasNames row
  | _ => []

def keyEqual (key : CString) (keyLen : Nat) (name : CString) : Bool :=
  decide (name.length = keyLen) && caseEqN keyLen key name

def keyMatches (key : CString) (keyLen : Nat) (wanted : CString) : Bool :=
  keyEqual key keyLen wanted || ALIASES.any fun row =>
    (aliasNames row).any (caseEq · wanted) && (aliasNames row).any (keyEqual key keyLen ·)

/-- `m2022_ieee1284_get`: the answer and the output buffer behind it.  `fields` is
what its array holds before the parser fills it. -/
def ieee1284Get (id : Option CString) (key : CString) (outlen : Nat) (out : Bytes)
    (fields : Nat → Ieee1284Field) : Bool × Bytes :=
  let (fields, n) := ieee1284Parse id fields 32
  if outlen = 0 then (false, out)
  else
    let out := Buffer.store out 0 [0]
    let n := if n > 32 then 32 else n
    match ((List.range n).map fields).find? fun f => keyMatches f.key f.keyLen key with
    | some f =>
      let len := if f.valueLen < outlen - 1 then f.valueLen else outlen - 1
      (true, Buffer.store (Buffer.store out 0 (f.value.take len)) len [0])
    | none => (false, out)

/-! ### Fields stay inside the ID -/

def Ieee1284Field.keyText (f : Ieee1284Field) : CString := f.key.take f.keyLen

def Ieee1284Field.valueText (f : Ieee1284Field) : CString := f.value.take f.valueLen

/-- The lengths of a field do not pass the end of the text. -/
structure Ieee1284Field.Bounded (f : Ieee1284Field) : Prop where
  key : f.keyLen ≤ f.key.length
  value : f.valueLen ≤ f.value.length

theorem trimEnd_le (s : CString) (len : Nat) : trimEnd s len ≤ len := by
  induction len with
  | zero => exact Nat.le_refl 0
  | succ len ih =>
    rw [trimEnd]
    split_ifs
    · exact Nat.le_succ_of_le ih
    · exact Nat.le_refl _

theorem trimStart_le {s : CString} {len : Nat} (h : len ≤ s.length) :
    (trimStart s len).2 ≤ (trimStart s len).1.length := by
  induction s generalizing len with
  | nil =>
    rw [List.length_nil, Nat.le_zero] at h
    rw [h]
    exact Nat.zero_le _
  | cons b s ih =>
    cases len with
    | zero => exact Nat.zero_le _
    | succ len =>
      rw [trimStart]
      split_ifs
      · exact ih (Nat.le_of_succ_le_succ h)
      · exact h

theorem trim_le {s : CString} {len : Nat} (h : len ≤ s.length) :
    (trim s len).2 ≤ (trim s len).1.length :=
  (trimEnd_le _ _).trans (trimStart_le h)

theorem segmentEnd_le (p : CString) : (segmentEnd p).1 ≤ p.length := by
  unfold segmentEnd
  split
  · exact Nat.sub_le _ _
  · exact Nat.le_refl _

theorem segmentField_bounded {p : CString} {seglen : Nat} (hseglen : seglen ≤ p.length)
    {f : Ieee1284Field} (h : segmentField p seglen = some f) : f.Bounded := by
  unfold segmentField at h
  cases hcolon : memchr p 58 seglen with
  | none =>
    rw [hcolon] at h
    exact absurd h (by simp)
  | some colon =>
    obtain ⟨t, rest, rfl, rfl, -⟩ := CString.strchr_eq_some (CString.strchr_of_memchr hcolon)
    rw [hcolon] at h
    dsimp only at h
    split_ifs at h
    rw [← Option.some_inj.mp h]
    rw [List.length_append, List.length_cons] at hseglen
    refine ⟨trim_le (Nat.sub_le _ _), trim_le ?_⟩
    simp only [List.length_append, List.length_cons, List.drop_one, List.tail_cons]
    omega

theorem idFields_bounded (p : Option CString) : ∀ f ∈ idFields p, f.Bounded := by
  induction p using idFields.induct with
  | case1 =>
    intro f hf
    rw [idFields] at hf
    exact absurd hf List.not_mem_nil
  | case2 =>
    intro f hf
    rw [idFields, dif_pos rfl] at hf
    exact absurd hf List.not_mem_nil
  | case3 p hne ih =>
    intro f hf
    rw [idFields, dif_neg hne] at hf
    rcases List.mem_append.mp hf with hf | hf
    · exact segmentField_bounded (segmentEnd_le p) (Option.mem_toList.mp hf)
    · exact ih f hf

/-! ### Names of one key -/

/-- Two names of one key: the same text but for case, or two of an alias group. -/
def SameKey (a b : CString) : Prop :=
  caseEq a b = true ∨ ∃ row ∈ ALIASES, (∃ name ∈ aliasNames row, caseEq name a = true) ∧
    ∃ name ∈ aliasNames row, caseEq name b = true

instance (a b : CString) : Decidable (SameKey a b) :=
  inferInstanceAs (Decidable (_ ∨ _))

theorem keyEqual_eq {f : Ieee1284Field} (h : f.Bounded) (name : CString) :
    keyEqual f.key f.keyLen name = caseEq f.keyText name := by
  have hlen : f.keyText.length = f.keyLen := List.length_take_of_le h.key
  unfold keyEqual caseEqN
  by_cases hname : name.length = f.keyLen
  · rw [decide_eq_true hname, Bool.true_and, List.take_of_length_le hname.le]
    rfl
  · rw [decide_eq_false hname, Bool.false_and]
    symm
    apply Bool.eq_false_of_not_eq_true
    intro heq
    exact hname ((CString.length_eq_of_caseEq heq).symm.trans hlen)

/-- The two comparisons of `key_matches` agree. -/
theorem keyMatches_iff {f : Ieee1284Field} (h : f.Bounded) (wanted : CString) :
    keyMatches f.key f.keyLen wanted = true ↔ SameKey f.keyText wanted := by
  unfold keyMatches SameKey
  simp only [keyEqual_eq h, Bool.or_eq_true, List.any_eq_true, Bool.and_eq_true,
    CString.caseEq_comm f.keyText]
  tauto

/-- No name stands in two groups. -/
theorem alias_unique : ∀ row ∈ ALIASES, ∀ row' ∈ ALIASES, ∀ name ∈ aliasNames row,
    ∀ name' ∈ aliasNames row', caseEq name name' = true → row = row' := by
  decide +kernel

theorem SameKey.symm {a b : CString} (h : SameKey a b) : SameKey b a := by
  rcases h with heq | ⟨row, hrow, ha, hb⟩
  · rw [CString.caseEq_comm] at heq
    exact .inl heq
  · exact .inr ⟨row, hrow, hb, ha⟩

theorem SameKey.trans {a b c : CString} (hab : SameKey a b) (hbc : SameKey b c) : SameKey a c := by
  rcases hab with hab | ⟨row, hrow, ⟨n, hn, hna⟩, m, hm, hmb⟩
  · rcases hbc with hbc | ⟨row, hrow, ⟨n, hn, hnb⟩, hc⟩
    · exact .inl (CString.caseEq_trans hab hbc)
    · rw [CString.caseEq_comm] at hab
      exact .inr ⟨row, hrow, ⟨n, hn, CString.caseEq_trans hnb hab⟩, hc⟩
  · rcases hbc with hbc | ⟨row', hrow', ⟨n', hn', hnb'⟩, hc⟩
    · exact .inr ⟨row, hrow, ⟨n, hn, hna⟩, m, hm, CString.caseEq_trans hmb hbc⟩
    · -- both groups have the name in the middle
      rw [CString.caseEq_comm] at hnb'
      have hrows := alias_unique row hrow row' hrow' m hm n' hn' (CString.caseEq_trans hmb hnb')
      exact .inr ⟨row, hrow, ⟨n, hn, hna⟩, hrows ▸ hc⟩

/-! ### The answer -/

/-- The array holds the first 32 fields when it is searched. -/
theorem parsed_first (id : Option CString) (fields : Nat → Ieee1284Field) :
    (List.range (if (idFields id).length > 32 then 32 else (idFields id).length)).map
      (fun i => if i < 32 then (idFields id).getD i (fields i) else fields i) =
        (idFields id).take 32 := by
  have hcount : (if (idFields id).length > 32 then 32 else (idFields id).length) =
      min 32 (idFields id).length := by
    split_ifs <;> omega
  rw [hcount]
  apply List.ext_getElem
  · rw [List.length_map, List.length_range, List.length_take]
  · intro i hi hi'
    rw [List.length_take] at hi'
    rw [List.getElem_map, List.getElem_range, if_pos (by omega), List.getElem_take,
      List.getD_eq_getElem _ _ (by omega)]

/-- The answer is that of the first field that has a name of the key. -/
theorem ieee1284Get_eq (id : Option CString) (key : CString) {outlen : Nat} (hout : outlen ≠ 0)
    (out : Bytes) (fields : Nat → Ieee1284Field) :
    ieee1284Get id key outlen out fields =
      match ((idFields id).take 32).find? fun f => decide (SameKey f.keyText key) with
      | some f =>
        let len := min f.valueLen (outlen - 1)
        (true, Buffer.store (Buffer.store (Buffer.store out 0 [0]) 0 (f.value.take len)) len [0])
      | none => (false, Buffer.store out 0 [0]) := by
  have hfind : ((idFields id).take 32).find? (fun f => keyMatches f.key f.keyLen key) =
      ((idFields id).take 32).find? fun f => decide (SameKey f.keyText key) := by
    apply List.find?_congr
    intro f hf
    have hbounded := idFields_bounded id f (List.mem_of_mem_take hf)
    rw [Bool.eq_iff_iff, keyMatches_iff hbounded, decide_eq_true_iff]
  unfold ieee1284Get
  rw [ieee1284Parse_eq]
  dsimp only
  rw [if_neg hout, parsed_first, hfind]
  cases ((idFields id).take 32).find? fun f => decide (SameKey f.keyText key) with
  | none => rfl
  | some f =>
    have hlen : (if f.valueLen < outlen - 1 then f.valueLen else outlen - 1) =
        min f.valueLen (outlen - 1) := by
      split_ifs <;> omega
    dsimp only
    rw [hlen]

/-- What is stored is the value, cut at the size of the output, and a zero. -/
theorem load_stored {f : Ieee1284Field} (h : f.Bounded) {outlen : Nat} {out : Bytes}
    (hout : 1 ≤ outlen) (hroom : outlen ≤ out.length) :
    let text := fit outlen f.valueText
    let len := min f.valueLen (outlen - 1)
    Buffer.load (Buffer.store (Buffer.store (Buffer.store out 0 [0]) 0 (f.value.take len)) len [0]) 0
      (text.length + 1) = text ++ [0] := by
  intro text len
  have htext : f.value.take len = text := by
    show f.value.take (min f.valueLen (outlen - 1)) = (f.value.take f.valueLen).take (outlen - 1)
    rw [List.take_take, Nat.min_comm]
  have hlen : len = text.length := by
    rw [← htext, List.length_take]
    have := h.value
    omega
  have hle : text.length ≤ outlen - 1 := by omega
  have hzero : Buffer.load (Buffer.store (Buffer.store (Buffer.store out 0 [0]) 0 text)
      (0 + text.length) [0]) (0 + text.length) 1 = [0] := by
    refine Buffer.load_store_same _ _ [0] ?_
    simp only [Buffer.length_store, List.length_singleton]
    omega
  have hfront : Buffer.load (Buffer.store (Buffer.store (Buffer.store out 0 [0]) 0 text)
      (0 + text.length) [0]) 0 text.length = text := by
    rw [Buffer.load_store_disjoint (.inr (by omega))]
    refine Buffer.load_store_same _ _ text ?_
    rw [Buffer.length_store]
    omega
  rw [Nat.zero_add] at hzero hfront
  rw [htext, hlen, Buffer.load_add, hfront, Nat.zero_add, hzero]

/-- A lookup finds a key if and only if one of the first 32 fields has a name of
it, stores the value of the first such field, and answers the same for every
name of the key. -/
theorem ieee1284Get_first (id : Option CString) (key : CString) {outlen : Nat} (hout : 1 ≤ outlen)
    {out : Bytes} (hroom : outlen ≤ out.length) (fields : Nat → Ieee1284Field) :
    let first := (idFields id).take 32
    let answer := ieee1284Get id key outlen out fields
    (answer.1 = true ↔ ∃ f ∈ first, SameKey f.keyText key) ∧
      (∀ f, first.find? (fun f => decide (SameKey f.keyText key)) = some f →
        Buffer.load answer.2 0 ((fit outlen f.valueText).length + 1) =
          fit outlen f.valueText ++ [0]) ∧
      ∀ key', SameKey key key' → ieee1284Get id key' outlen out fields = answer := by
  intro first answer
  have hanswer : answer = _ := ieee1284Get_eq id key (by omega) out fields
  refine ⟨?_, fun f hf => ?_, fun key' hkey => ?_⟩
  · rw [hanswer]
    cases hfind : first.find? fun f => decide (SameKey f.keyText key) with
    | none =>
      refine iff_of_false Bool.false_ne_true ?_
      intro ⟨f, hf, hsame⟩
      have hnot := List.find?_eq_none.mp hfind f hf
      exact hnot (decide_eq_true hsame)
    | some f =>
      have hsame := List.find?_some hfind
      exact iff_of_true rfl ⟨f, List.mem_of_find?_eq_some hfind, of_decide_eq_true hsame⟩
  · have hbounded := idFields_bounded id f (List.mem_of_mem_take (List.mem_of_find?_eq_some hf))
    rw [hanswer, hf]
    exact load_stored hbounded hout hroom
  · have hsame : ∀ f ∈ first, decide (SameKey f.keyText key') = decide (SameKey f.keyText key) :=
      fun f _ => decide_eq_decide.mpr ⟨fun h => h.trans hkey.symm, fun h => h.trans hkey⟩
    rw [hanswer, ieee1284Get_eq id key' (by omega) out fields, List.find?_congr hsame]

/-- A model name that is cut. -/
theorem ieee1284Get_first_cut :
    let id := ascii "MDL:Very long model name;"
    let none : Ieee1284Field := ⟨[], 0, [], 0⟩
    let first := (idFields (some id)).take 32
    let answer := ieee1284Get (some id) (ascii "MDL") 5 (List.replicate 8 7) fun _ => none
    (answer.1 = true ↔ ∃ f ∈ first, SameKey f.keyText (ascii "MDL")) ∧
      (∀ f, first.find? (fun f => decide (SameKey f.keyText (ascii "MDL"))) = some f →
        Buffer.load answer.2 0 ((fit 5 f.valueText).length + 1) = fit 5 f.valueText ++ [0]) ∧
      ∀ key', SameKey (ascii "MDL") key' →
        ieee1284Get (some id) key' 5 (List.replicate 8 7) (fun _ => none) = answer :=
  ieee1284Get_first (some (ascii "MDL:Very long model name;")) (ascii "MDL") (by decide)
    (by decide) _

/-- The key of the 33rd field is not found. -/
theorem ieee1284Get_33rd :
    let id := (List.replicate 32 (ascii "A:1;")).flatten ++ ascii "MFG:Acme;"
    (∃ f ∈ idFields (some id), SameKey f.keyText (ascii "MFG")) ∧
      (ieee1284Get (some id) (ascii "MFG") 64 (List.replicate 64 7) fun _ => ⟨[], 0, [], 0⟩).1 =
        false := by
  intro id
  let none : { s : CString // Blank s } := ⟨[], by simp [Blank]⟩
  let a : IdField := ⟨ascii "A", ascii "1", by decide, by decide, by decide,
    by simp [Trimmed, ascii, isBlank], by simp [Trimmed, ascii, isBlank]⟩
  let mfg : IdField := ⟨ascii "MFG", ascii "Acme", by decide, by decide, by decide,
    by simp [Trimmed, ascii, isBlank], by simp [Trimmed, ascii, isBlank]⟩
  let segments : List Segment :=
    List.replicate 32 (.field a none none none none) ++ [.field mfg none none none none]
  have hid : id = printId true segments := by
    decide +kernel
  have hfields : List.Forall₂ Ieee1284Field.Holds (idFields (some id))
      (List.replicate 32 a ++ [mfg]) := by
    rw [hid]
    exact idFields_printId true segments
  obtain ⟨hlen, hholds⟩ := List.forall₂_iff_get.mp hfields
  have hkey {f : Ieee1284Field} {g : IdField} (h : f.Holds g) : f.keyText = g.key := h.key
  have hlen33 : (idFields (some id)).length = 33 := hlen
  constructor
  · have hlast := hkey (hholds 32 (by omega) (by decide))
    refine ⟨_, List.get_mem _ ⟨32, by omega⟩, ?_⟩
    rw [hlast]
    decide +kernel
  · rw [ieee1284Get_eq _ _ (by decide)]
    have hnone : ((idFields (some id)).take 32).find?
        (fun f => decide (SameKey f.keyText (ascii "MFG"))) = Option.none := by
      rw [List.find?_eq_none]
      intro f hf
      obtain ⟨i, hi, rfl⟩ := List.mem_iff_getElem.mp hf
      have hlt : i < 32 := by
        rw [List.length_take] at hi
        omega
      have hi32 : i < (List.replicate 32 a).length := by
        rw [List.length_replicate]
        exact hlt
      have hname := hkey (hholds i (by omega) (Nat.lt_of_lt_of_le hi32 (by simp)))
      rw [List.get_eq_getElem, List.get_eq_getElem, List.getElem_append_left hi32,
        List.getElem_replicate] at hname
      rw [List.getElem_take, hname]
      decide +kernel
    rw [hnone]

end Airbridge.Usb
