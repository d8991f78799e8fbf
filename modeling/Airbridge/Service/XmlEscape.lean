import Airbridge.Lib.Memory
import Airbridge.Service.Plist

/-!
# The text of a property list

`xml_escape` writes a name into a buffer for the launchd job, one character or
one entity at a time, and stops while the longest entity still fits.

* `xmlEscape_eq_flatMap`: what it writes are the first characters of the name,
  each escaped, and all of them when there is room.
* `xmlEscapeBuffer_spec`: the loop over the buffer writes exactly that text and
  a zero behind it, and nothing outside.
-/

namespace Airbridge.Service

open Airbridge.Qpdl (ascii Bytes)

/-! ## Escaping and its inverse -/

/-- The text with its predefined entities decoded. -/
def xmlDecode : CString → CString
  | [] => []
  | c :: s =>
    if c = 38 then
      match s with
      | 97 :: 109 :: 112 :: 59 :: s => 38 :: xmlDecode s
      | 108 :: 116 :: 59 :: s => 60 :: xmlDecode s
      | 103 :: 116 :: 59 :: s => 62 :: xmlDecode s
      | 113 :: 117 :: 111 :: 116 :: 59 :: s => 34 :: xmlDecode s
      | 97 :: 112 :: 111 :: 115 :: 59 :: s => 39 :: xmlDecode s
      | s => 38 :: xmlDecode s
    else c :: xmlDecode s

/-- A character as `xml_escape` writes it. -/
def xmlChar (c : UInt8) : CString := (xmlEntity c).getD [c]

/-- The length of a text with its characters escaped. -/
def escapedLength (s : CString) : Nat := (s.map fun c => (xmlChar c).length).sum

theorem xmlChar_cases (c : UInt8) :
    c = 38 ∧ xmlChar c = ascii "&amp;" ∨ c = 60 ∧ xmlChar c = ascii "&lt;" ∨
      c = 62 ∧ xmlChar c = ascii "&gt;" ∨ c ≠ 38 ∧ c ≠ 60 ∧ c ≠ 62 ∧ xmlChar c = [c] := by
  unfold xmlChar xmlEntity
  split_ifs with h38 h60 h62
  · exact .inl ⟨h38, rfl⟩
  · exact .inr (.inl ⟨h60, rfl⟩)
  · exact .inr (.inr (.inl ⟨h62, rfl⟩))
  · exact .inr (.inr (.inr ⟨h38, h60, h62, rfl⟩))

theorem length_xmlChar (c : UInt8) : 1 ≤ (xmlChar c).length ∧ (xmlChar c).length ≤ 5 := by
  rcases xmlChar_cases c with ⟨-, h⟩ | ⟨-, h⟩ | ⟨-, h⟩ | ⟨-, -, -, h⟩
  · rw [h]
    decide
  · rw [h]
    decide
  · rw [h]
    decide
  · rw [h]
    exact ⟨le_refl 1, (by decide : 1 ≤ 5)⟩

theorem xmlDecode_xmlChar (c : UInt8) (s : CString) :
    xmlDecode (xmlChar c ++ s) = c :: xmlDecode s := by
  rcases xmlChar_cases c with ⟨rfl, h⟩ | ⟨rfl, h⟩ | ⟨rfl, h⟩ | ⟨h38, -, -, h⟩
  · rw [h]
    rfl
  · rw [h]
    rfl
  · rw [h]
    rfl
  · rw [h, List.singleton_append]
    conv_lhs => unfold xmlDecode
    rw [if_neg h38]

/-- What is written of a text reads back as the text exactly when there was
room for it. -/
theorem xmlDecode_xmlEscape_iff (size n : Nat) (s : CString) :
    xmlDecode (xmlEscape size n s) = s ↔ s = [] ∨ n + escapedLength s.dropLast + 6 < size := by
  induction s generalizing n with
  | nil => simp [xmlEscape, xmlDecode]
  | cons c s ih =>
    rw [xmlEscape]
    split_ifs with hroom
    · rw [← xmlChar, xmlDecode_xmlChar, List.cons_inj_right, ih]
      cases s with
      | nil => simpa [escapedLength] using hroom
      | cons d s => simp [escapedLength, Nat.add_assoc]
    · have hne : xmlDecode [] ≠ c :: s := by simp [xmlDecode]
      refine iff_of_false hne ?_
      rw [not_or, not_lt]
      exact ⟨not_false, by omega⟩

theorem length_xmlEscape_le (size n : Nat) (s : CString) :
    (xmlEscape size n s).length ≤ size - n := by
  induction s generalizing n with
  | nil => simp [xmlEscape]
  | cons c s ih =>
    rw [xmlEscape]
    split_ifs with hroom
    · have hle := ih (n + (xmlChar c).length)
      have hfive := (length_xmlChar c).2
      rw [← xmlChar, List.length_append]
      omega
    · simp

/-- What is written are the first characters, escaped: all of them when the
buffer has room for six bytes more. -/
theorem xmlEscape_eq_flatMap (size n : Nat) (s : CString) :
    ∃ k, xmlEscape size n s = (s.take k).flatMap xmlChar ∧
      (n + escapedLength s + 6 ≤ size → s.length ≤ k) := by
  induction s generalizing n with
  | nil => exact ⟨0, rfl, fun _ => Nat.le_refl 0⟩
  | cons c s ih =>
    rw [xmlEscape]
    split_ifs with hroom
    · obtain ⟨k, heq, hall⟩ := ih (n + (xmlChar c).length)
      refine ⟨k + 1, ?_, fun hle => ?_⟩
      · rw [List.take_succ_cons, List.flatMap_cons, ← heq, ← xmlChar]
      · rw [escapedLength, List.map_cons, List.sum_cons] at hle
        have := hall (by rw [escapedLength]; omega)
        rw [List.length_cons]
        omega
    · refine ⟨0, rfl, fun hle => ?_⟩
      have hone := (length_xmlChar c).1
      rw [escapedLength, List.map_cons, List.sum_cons] at hle
      omega

theorem xmlDecode_flatMap (s : CString) : xmlDecode (s.flatMap xmlChar) = s := by
  induction s with
  | nil => rfl
  | cons c s ih => rw [List.flatMap_cons, xmlDecode_xmlChar, ih]

/-- A byte of an escaped character is the character, or a byte of an entity. -/
theorem mem_xmlChar {b c : UInt8} (h : b ∈ xmlChar c) :
    b = c ∧ c ≠ 60 ∧ c ≠ 62 ∨ b ∈ ascii "&amp;" ++ ascii "&lt;" ++ ascii "&gt;" := by
  rcases xmlChar_cases c with ⟨-, hc⟩ | ⟨-, hc⟩ | ⟨-, hc⟩ | ⟨-, h60, h62, hc⟩
  · rw [hc] at h
    exact .inr (List.mem_append_left _ (List.mem_append_left _ h))
  · rw [hc] at h
    exact .inr (List.mem_append_left _ (List.mem_append_right _ h))
  · rw [hc] at h
    exact .inr (List.mem_append_right _ h)
  · rw [hc, List.mem_singleton] at h
    exact .inl ⟨h, h60, h62⟩

/-- A byte is not in the escaped text when no entity has it and the text has
it only as a bracket of a tag. -/
theorem not_mem_flatMap_xmlChar {b : UInt8} {s : CString}
    (hentity : b ∉ ascii "&amp;" ++ ascii "&lt;" ++ ascii "&gt;")
    (hs : b ∈ s → b = 60 ∨ b = 62) : b ∉ s.flatMap xmlChar := by
  simp only [List.mem_flatMap, not_exists, not_and]
  intro c hc hb
  rcases mem_xmlChar hb with ⟨rfl, h60, h62⟩ | hmem
  · rcases hs hc with heq | heq
    · exact h60 heq
    · exact h62 heq
  · exact hentity hmem

/-- The escaped text has no tag. -/
theorem tag_not_mem_flatMap_xmlChar (s : CString) :
    60 ∉ s.flatMap xmlChar ∧ 62 ∉ s.flatMap xmlChar :=
  ⟨not_mem_flatMap_xmlChar (by decide) fun _ => .inl rfl,
    not_mem_flatMap_xmlChar (by decide) fun _ => .inr rfl⟩

theorem not_mem_xmlEscape (size n : Nat) (s : CString) : 60 ∉ xmlEscape size n s := by
  obtain ⟨k, heq, -⟩ := xmlEscape_eq_flatMap size n s
  rw [heq]
  exact (tag_not_mem_flatMap_xmlChar _).1

/-- An escaped text of a string has no zero. -/
theorem zero_not_mem_flatMap_xmlChar {s : CString} (hs : 0 ∉ s) : 0 ∉ s.flatMap xmlChar :=
  not_mem_flatMap_xmlChar (by decide) fun hzero => absurd hzero hs

/-- The entities of `xml_escape`. -/
def xmlEntities : List CString := [ascii "&amp;", ascii "&lt;", ascii "&gt;"]

/-- A byte that a text has only in front. -/
theorem tail_eq_of_not_mem {b : UInt8} {rest before after : CString} (hrest : b ∉ rest)
    (h : b :: rest = before ++ b :: after) : b :: after = b :: rest := by
  cases before with
  | nil => exact h.symm
  | cons d before =>
    rw [List.cons_append, List.cons.injEq] at h
    exact absurd (h.2 ▸ List.mem_append_right before List.mem_cons_self) hrest

/-- An ampersand inside an escaped character is its first byte, and the
character is an entity. -/
theorem xmlChar_ampersand {c : UInt8} {before after : CString}
    (h : xmlChar c = before ++ 38 :: after) : 38 :: after ∈ xmlEntities := by
  have hamp : ascii "&amp;" = 38 :: [97, 109, 112, 59] := rfl
  have hlt : ascii "&lt;" = 38 :: [108, 116, 59] := rfl
  have hgt : ascii "&gt;" = 38 :: [103, 116, 59] := rfl
  rw [xmlEntities, hamp, hlt, hgt]
  rcases xmlChar_cases c with ⟨-, hc⟩ | ⟨-, hc⟩ | ⟨-, hc⟩ | ⟨h38, -, -, hc⟩
  · rw [hc, hamp] at h
    rw [tail_eq_of_not_mem (by decide) h]
    exact List.mem_cons_self
  · rw [hc, hlt] at h
    rw [tail_eq_of_not_mem (by decide) h]
    exact List.mem_cons_of_mem _ List.mem_cons_self
  · rw [hc, hgt] at h
    rw [tail_eq_of_not_mem (by decide) h]
    exact List.mem_cons_of_mem _ (List.mem_cons_of_mem _ List.mem_cons_self)
  · have hmem : 38 ∈ xmlChar c := by
      rw [h]
      exact List.mem_append_right before List.mem_cons_self
    rw [hc, List.mem_singleton] at hmem
    exact absurd hmem.symm h38

/-- Every ampersand of an escaped text starts an entity. -/
theorem entity_of_flatMap_xmlChar {s before after : CString}
    (h : s.flatMap xmlChar = before ++ 38 :: after) :
    ∃ entity ∈ xmlEntities, entity <+: 38 :: after := by
  induction s generalizing before with
  | nil => exact absurd h (by simp)
  | cons c s ih =>
    rw [List.flatMap_cons, List.append_eq_append_iff] at h
    rcases h with ⟨front, rfl, hrest⟩ | ⟨tail, hchar, htail⟩
    · exact ih hrest
    · cases tail with
      | nil =>
        have hnext : s.flatMap xmlChar = [] ++ 38 :: after := htail.symm
        exact ih hnext
      | cons b tail =>
        rw [List.cons_append, List.cons.injEq] at htail
        obtain ⟨rfl, rfl⟩ := htail
        exact ⟨38 :: tail, xmlChar_ampersand hchar, List.prefix_append (38 :: tail) _⟩

theorem length_le_escapedLength (s : CString) : s.length ≤ escapedLength s := by
  induction s with
  | nil => exact Nat.zero_le _
  | cons c s ih =>
    have hone := (length_xmlChar c).1
    simp only [escapedLength, List.length_cons, List.map_cons, List.sum_cons] at ih ⊢
    omega

/-! ## The buffer -/

/-- The buffer of `xml_escape`, how many of its bytes are in use, and the
writes so far. -/
structure EscapeState where
  out : Bytes
  n : Nat
  writes : List Memory.Access

/-- The loop of `xml_escape` over a buffer of `size` bytes. -/
def xmlEscapeLoop (size : Nat) : EscapeState → CString → EscapeState
  | e, [] => e
  | e, c :: s =>
    if e.n + 6 < size then
      match xmlEntity c with
      | some rep =>
        xmlEscapeLoop size
          { out := CString.snprintf e.out e.n (size - e.n) rep
            n := e.n + rep.length
            writes := e.writes ++ [⟨e.n, (CString.fit (size - e.n) rep).length + 1, size⟩] } s
      | none =>
        xmlEscapeLoop size
          { out := Buffer.store e.out e.n [c]
            n := e.n + 1
            writes := e.writes ++ [⟨e.n, 1, size⟩] } s
    else e

/-- `xml_escape`: the loop, and the terminating zero. -/
def xmlEscapeBuffer (s : CString) (out : Bytes) (size : Nat) : EscapeState :=
  let e := xmlEscapeLoop size ⟨out, 0, []⟩ s
  { e with
    out := Buffer.store e.out e.n [0]
    writes := e.writes ++ [⟨e.n, 1, size⟩] }

/-- The bytes in use are `text`, and every write was inside the buffer. -/
structure Escaped (e : EscapeState) (size : Nat) (text : CString) : Prop where
  length_out : e.out.length = size
  n_eq : e.n = text.length
  n_lt : e.n < size
  text_eq : e.out.take e.n = text
  inside : ∀ a ∈ e.writes, a.Inside

/-- A store behind the bytes in use, of which `rep` stays. -/
theorem Escaped.store {e : EscapeState} {size : Nat} {text : CString} (h : Escaped e size text)
    {rep data : CString} (hrep : rep <+: data) (hroom : e.n + data.length ≤ size)
    (hlt : e.n + rep.length < size) :
    Escaped { out := Buffer.store e.out e.n data
              n := e.n + rep.length
              writes := e.writes ++ [⟨e.n, data.length, size⟩] } size (text ++ rep) := by
  refine ⟨?_, ?_, hlt, ?_, ?_⟩
  · rw [Buffer.length_store, h.length_out]
  · rw [List.length_append, h.n_eq]
  · rw [Buffer.take_store hrep.length_le (by rw [h.length_out]; exact hroom), h.text_eq,
      ← List.prefix_iff_eq_take.mp hrep]
  · intro a ha
    rw [List.mem_append, List.mem_singleton] at ha
    rcases ha with ha | rfl
    · exact h.inside a ha
    · exact hroom

/-- The loop writes the escaped text behind what is there. -/
theorem xmlEscapeLoop_escaped {e : EscapeState} {size : Nat} {text : CString}
    (h : Escaped e size text) (s : CString) :
    Escaped (xmlEscapeLoop size e s) size (text ++ xmlEscape size e.n s) := by
  induction s generalizing e text with
  | nil =>
    rw [xmlEscape, List.append_nil]
    exact h
  | cons c s ih =>
    rw [xmlEscapeLoop, xmlEscape]
    split_ifs with hroom
    · dsimp only
      rw [← List.append_assoc]
      have hfive := (length_xmlChar c).2
      unfold xmlChar at hfive
      cases hentity : xmlEntity c with
      | none => exact ih (h.store (List.prefix_refl [c]) (by rw [List.length_singleton]; omega)
          (by rw [List.length_singleton]; omega))
      | some rep =>
        rw [hentity, Option.getD_some] at hfive
        have hfit : CString.fit (size - e.n) rep = rep := CString.fit_eq (by omega)
        have hstored : CString.snprintf e.out e.n (size - e.n) rep =
            Buffer.store e.out e.n (rep ++ [0]) := by
          rw [CString.snprintf, if_neg (by omega), hfit]
        have hlen : (rep ++ [(0 : UInt8)]).length = rep.length + 1 := List.length_append
        have hnext := ih (h.store (List.prefix_append rep [0]) (by omega) (by omega))
        rw [hlen] at hnext
        dsimp only
        rw [hstored, hfit]
        exact hnext
    · rw [List.append_nil]
      exact h

/-- What `xml_escape` leaves in its buffer, and where it wrote. -/
theorem xmlEscapeBuffer_spec (s : CString) {out : Bytes} (hpos : 0 < out.length) :
    let e := xmlEscapeBuffer s out out.length
    (∃ rest, e.out = xmlEscape out.length 0 s ++ 0 :: rest) ∧ e.out.length = out.length ∧
      ∀ a ∈ e.writes, a.Inside := by
  have hstart : Escaped ⟨out, 0, []⟩ out.length [] :=
    ⟨rfl, rfl, hpos, List.take_zero, by simp⟩
  have hloop := xmlEscapeLoop_escaped hstart s
  rw [List.nil_append] at hloop
  refine ⟨⟨(xmlEscapeLoop out.length ⟨out, 0, []⟩ s).out.drop
    ((xmlEscapeLoop out.length ⟨out, 0, []⟩ s).n + 1), ?_⟩, ?_, ?_⟩
  · rw [xmlEscapeBuffer]
    dsimp only
    rw [Buffer.store_eq (by rw [hloop.length_out]; exact hloop.n_lt), hloop.text_eq,
      List.append_assoc]
    rfl
  · rw [xmlEscapeBuffer, Buffer.length_store, hloop.length_out]
  · intro a ha
    rw [xmlEscapeBuffer, List.mem_append, List.mem_singleton] at ha
    rcases ha with ha | rfl
    · exact hloop.inside a ha
    · exact hloop.n_lt

/-- The string in the buffer is the text the launchd job is made with. -/
theorem ofBuffer_xmlEscapeBuffer {s : CString} (hs : 0 ∉ s) {out : Bytes}
    (hpos : 0 < out.length) :
    CString.ofBuffer (xmlEscapeBuffer s out out.length).out = xmlEscape out.length 0 s := by
  obtain ⟨⟨rest, hout⟩, -, -⟩ := xmlEscapeBuffer_spec s hpos
  obtain ⟨k, heq, -⟩ := xmlEscape_eq_flatMap out.length 0 s
  rw [hout, CString.ofBuffer_append]
  rw [heq]
  exact zero_not_mem_flatMap_xmlChar fun hmem => hs (List.mem_of_mem_take hmem)

/-- `xml_escape` writes inside its buffer and ends its text there.  The text
has no tag, each of its ampersands starts an entity, and it reads back as the
beginning of the string, or as the whole of it when six bytes are left. -/
theorem xmlEscapeBuffer_safe {s : CString} (hs : 0 ∉ s) {out : Bytes} (hpos : 1 ≤ out.length) :
    let e := xmlEscapeBuffer s out out.length
    let text := CString.ofBuffer e.out
    (∀ a ∈ e.writes, a.Inside) ∧ e.out.length = out.length ∧
      0 ∈ e.out ∧ text.length < out.length ∧
      60 ∉ text ∧ 62 ∉ text ∧
      (∀ before after, text = before ++ 38 :: after →
        ∃ entity ∈ xmlEntities, entity <+: 38 :: after) ∧
      xmlDecode text <+: s ∧
      (escapedLength s ≤ out.length - 6 → xmlDecode text = s) := by
  intro e text
  obtain ⟨⟨rest, hout⟩, hlen, hinside⟩ := xmlEscapeBuffer_spec s hpos
  obtain ⟨k, heq, hall⟩ := xmlEscape_eq_flatMap out.length 0 s
  have htext : text = (s.take k).flatMap xmlChar := (ofBuffer_xmlEscapeBuffer hs hpos).trans heq
  rw [heq] at hout
  have hdecode : xmlDecode text = s.take k := by
    rw [htext, xmlDecode_flatMap]
  obtain ⟨htag, hend⟩ := tag_not_mem_flatMap_xmlChar (s.take k)
  refine ⟨hinside, hlen, ?_, ?_, ?_, ?_, ?_, ?_, ?_⟩
  · show 0 ∈ (xmlEscapeBuffer s out out.length).out
    rw [hout]
    exact List.mem_append_right _ List.mem_cons_self
  · rw [htext, ← hlen, hout, List.length_append, List.length_cons]
    omega
  · rw [htext]
    exact htag
  · rw [htext]
    exact hend
  · intro before after hsplit
    rw [htext] at hsplit
    exact entity_of_flatMap_xmlChar hsplit
  · rw [hdecode]
    exact List.take_prefix k s
  · intro hroom
    rw [hdecode]
    apply List.take_of_length_le
    have hle := length_le_escapedLength s
    rcases Nat.lt_or_ge out.length 6 with hsmall | hlarge
    · omega
    · exact hall (by omega)

/-- A name with a tag in it, into a buffer of 20 bytes. -/
theorem xmlEscapeBuffer_safe_tag :
    escapedLength (ascii "a<b>") ≤ 20 - 6 ∧
      xmlDecode (CString.ofBuffer (xmlEscapeBuffer (ascii "a<b>") (List.replicate 20 0) 20).out) =
        ascii "a<b>" := by
  have hroom : escapedLength (ascii "a<b>") ≤ 20 - 6 := by decide
  have hzero : 0 ∉ ascii "a<b>" := by decide
  have hpos : 1 ≤ (List.replicate 20 (0 : UInt8)).length := by decide
  obtain ⟨-, -, -, -, -, -, -, -, hall⟩ := xmlEscapeBuffer_safe hzero hpos
  exact ⟨hroom, hall hroom⟩

end Airbridge.Service
