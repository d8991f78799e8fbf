import Airbridge.Qpdl.Records
import Mathlib.Data.List.Infix

/-!
# The job walker

`m2022_qpdl_walk` (`walk.c`) reads a complete job: text lines up to the
`ENTER LANGUAGE` line, then records, then an optional text trailer after the
end-of-job byte.  The visitor's callbacks are modelled by the list of events
they would receive, in order, for a visitor that sets all five.

A cursor into the data is a pair: the offset `pos` and the bytes from there
to the end.  The macro `MAX_PJL_LINE` is written out as 4096.
-/

namespace Airbridge.Qpdl

/-- One callback of `m2022_qpdl_visitor_t`.  A band's `payload` is the
`h.length` bytes its pointer may read. -/
inductive Event where
  | pjlLine (offset : Nat) (line : Bytes)
  | page (offset : Nat) (h : PageHeader)
  | band (offset : Nat) (h : BandHeader) (payload : Bytes)
  | endPage (offset : Nat) (copies : UInt16)
  | endJob (offset : Nat)
deriving Repr, DecidableEq

/-! ## Text lines -/

def isTextByte (c : UInt8) : Bool :=
  c = 0x0D || c = 0x0A || c = 0x09 || c = 0x1B || (0x20 ≤ c && c < 0x7F)

/-- The inner loop of `emit_lines`: the number of bytes before the newline,
the end of the data or the `room`-th byte, and `none` when a byte on the way
is binary. -/
def lineLength : Nat → Bytes → Option Nat
  | 0, _ => some 0
  | _ + 1, [] => some 0
  | room + 1, c :: rest =>
    if c = 0x0A then some 0
    else if !isTextByte c then none
    else (lineLength room rest).map (· + 1)

/-- The first `n` bytes without a trailing carriage return. -/
def trimCr (rest : Bytes) (n : Nat) : Bytes :=
  if 0 < n ∧ byteAt rest (n - 1) = 0x0D then rest.take (n - 1) else rest.take n

def enterLanguage : Bytes := ascii "ENTER LANGUAGE"

/-- The test that ends the envelope: at least 19 bytes and `memmem` finds the
text. -/
def isEnterLine (line : Bytes) : Bool := 19 ≤ line.length ∧ enterLanguage <:+: line

/-- Where `emit_lines` stopped and what it reported. -/
structure Lines where
  events : List Event
  pos : Nat
  rest : Bytes
  sawEnter : Bool
deriving Repr, DecidableEq

/-- Report text lines up to the first binary byte or the end.  `wantEnter` is
the pointer `saw_enter_language` not being `NULL`. -/
def emitLines (wantEnter : Bool) (pos : Nat) (rest : Bytes) : Lines :=
  match rest with
  | [] => ⟨[], pos, [], false⟩
  | c :: tail =>
    if !isTextByte c then ⟨[], pos, c :: tail, false⟩
    else match lineLength 4096 (c :: tail) with
      | none => ⟨[], pos, c :: tail, false⟩
      | some n =>
        let line := trimCr (c :: tail) n
        -- the newline goes too, and a line cut at 4096 bytes loses the byte it was cut at
        let pos' := pos + min (n + 1) (c :: tail).length
        let rest' := (c :: tail).drop (n + 1)
        if wantEnter && isEnterLine line then ⟨[.pjlLine pos line], pos', rest', true⟩
        else
          let more := emitLines wantEnter pos' rest'
          { more with events := .pjlLine pos line :: more.events }
termination_by rest.length
decreasing_by
  rw [List.drop_succ_cons, List.length_drop, List.length_cons]
  omega

/-! ## Records -/

/-- What a walk returns.  `errorOffset` is `*error_offset` when it was set. -/
structure WalkResult where
  events : List Event
  rc : Int
  errorOffset : Option Nat
deriving Repr, DecidableEq

def uel : Bytes := 0x1B :: ascii "%-12345X"

/-- The macro `FAIL`. -/
def fail (pos : Nat) (rc : Int) : WalkResult := ⟨[], rc, some pos⟩

def WalkResult.cons (e : Event) (r : WalkResult) : WalkResult := { r with events := e :: r.events }

/-- The branch of the end-of-job byte; `pos` is already past it. -/
def walkTrailer (pos : Nat) (rest : Bytes) : WalkResult :=
  if uel.isPrefixOf rest then
    let lines := emitLines false pos rest
    if lines.rest = [] then ⟨lines.events, OK, none⟩
    else ⟨lines.events, ERECORD, some lines.pos⟩
  else if rest = [] then ⟨[], OK, none⟩
  else fail pos ERECORD

/-- The loop over the records. -/
def walkRecords (pos : Nat) (rest : Bytes) : WalkResult :=
  match rest with
  | [] => ⟨[], OK, none⟩
  | t :: tail =>
    if t = REC_PAGE then
      match _hp : parsePageHeader (t :: tail) with
      | .error rc => fail pos rc
      | .ok (h, n) => (walkRecords (pos + n) ((t :: tail).drop n)).cons (.page pos h)
    else if t = REC_BAND then
      match _hp : parseBandHeader (t :: tail) with
      | .error rc => fail pos rc
      | .ok (h, n) =>
        let body := (t :: tail).drop n
        if body.length < h.length.toNat then fail pos ETRUNCATED
        else
          (walkRecords (pos + (n + h.length.toNat)) (body.drop h.length.toNat)).cons
            (.band pos h (body.take h.length.toNat))
    else if t = REC_END_PAGE then
      if (t :: tail).length < 3 then fail pos ETRUNCATED
      else
        (walkRecords (pos + 3) ((t :: tail).drop 3)).cons (.endPage pos (rd16be (t :: tail) 1))
    else if t = REC_END_JOB then (walkTrailer (pos + 1) tail).cons (.endJob pos)
    else fail pos ERECORD
termination_by rest.length
decreasing_by
  · obtain ⟨rfl, hlen⟩ := parsePageHeader_consumed _hp
    rw [List.length_drop]
    omega
  · obtain ⟨rfl, hlen⟩ := parseBandHeader_consumed _hp
    rw [List.length_drop, List.length_drop]
    omega
  · rw [List.length_drop, List.length_cons]
    omega

def walk (data : Bytes) : WalkResult :=
  let lines := emitLines true 0 data
  if !lines.sawEnter then { fail lines.pos ENOPJL with events := lines.events }
  else
    let r := walkRecords lines.pos lines.rest
    { r with events := lines.events ++ r.events }

/-! ## Walking what was written: text lines -/

/-- The two bytes that end a PJL line. -/
def crlf : Bytes := [0x0D, 0x0A]

/-- A line that can be reported whole: text without a newline, short enough
to stay below the line limit with its `\r\n`. -/
structure IsTextLine (line : Bytes) : Prop where
  text : ∀ c ∈ line, isTextByte c = true
  no_newline : (0x0A : UInt8) ∉ line
  short : line.length ≤ 4094

/-- A line as `emit_lines` reads it, without its newline: text of at most 4096
bytes. -/
structure IsPjlLine (line : Bytes) : Prop where
  text : ∀ c ∈ line, isTextByte c = true
  no_newline : (0x0A : UInt8) ∉ line
  short : line.length ≤ 4096

/-- What is reported of a line. -/
def trimmed (line : Bytes) : Bytes := trimCr line line.length

theorem lineLength_append {line : Bytes} (rest : Bytes) {room : Nat}
    (htext : ∀ c ∈ line, isTextByte c = true) (hnl : (0x0A : UInt8) ∉ line)
    (hroom : line.length ≤ room) :
    lineLength room (line ++ 0x0A :: rest) = some line.length := by
  induction line generalizing room with
  | nil => cases room <;> simp [lineLength]
  | cons c line ih =>
    obtain ⟨room, rfl⟩ : ∃ r, room = r + 1 := ⟨room - 1, by simp at hroom; omega⟩
    have hc : c ≠ 0x0A := fun h => hnl (by simp [h])
    have hct : isTextByte c = true := htext c (by simp)
    have hrest := @ih room (fun c' hc' => htext c' (by simp [hc']))
      (fun h => hnl (by simp [h])) (by simpa using hroom)
    rw [List.cons_append, lineLength, if_neg hc, hct]
    simp [hrest]

theorem trimCr_append (line rest : Bytes) : trimCr (line ++ rest) line.length = trimmed line := by
  unfold trimmed trimCr
  rcases List.eq_nil_or_concat line with rfl | ⟨front, last, rfl⟩
  · rfl
  · have hlast : (front ++ [last]).length - 1 = front.length := by simp
    have hget (behind : Bytes) : byteAt (front ++ [last] ++ behind) front.length = last := by
      simp [byteAt]
    have hself : byteAt (front ++ [last]) front.length = last := by simp [byteAt]
    rw [List.concat_eq_append, hlast, hget, hself, List.append_assoc]
    split_ifs
    · rw [List.take_left, List.take_left]
    · rw [← List.append_assoc, List.take_left, List.take_length]

/-- One reported line of `emit_lines`. -/
theorem emitLines_newline (wantEnter : Bool) (pos : Nat) {line : Bytes} (rest : Bytes)
    (h : IsPjlLine line) :
    emitLines wantEnter pos (line ++ 0x0A :: rest) =
      if wantEnter && isEnterLine (trimmed line) then
        ⟨[.pjlLine pos (trimmed line)], pos + line.length + 1, rest, true⟩
      else
        let more := emitLines wantEnter (pos + line.length + 1) rest
        { more with events := .pjlLine pos (trimmed line) :: more.events } := by
  obtain ⟨c, tail, hcons, hc⟩ :
      ∃ c tail, line ++ 0x0A :: rest = c :: tail ∧ isTextByte c = true := by
    cases line with
    | nil => exact ⟨0x0A, rest, rfl, rfl⟩
    | cons c line => exact ⟨c, line ++ 0x0A :: rest, rfl, h.text c (by simp)⟩
  have hlen := lineLength_append rest h.text h.no_newline h.short
  have htrim := trimCr_append line (0x0A :: rest)
  have hdrop : (line ++ 0x0A :: rest).drop (line.length + 1) = rest := by
    rw [List.append_cons, List.drop_left' (by simp)]
  have hmin : min (line.length + 1) (line ++ 0x0A :: rest).length = line.length + 1 := by
    rw [List.length_append, List.length_cons]
    omega
  rw [hcons] at hlen htrim hdrop hmin ⊢
  rw [emitLines]
  simp only [hc, Bool.not_true, Bool.false_eq_true, if_false, hlen, htrim, hdrop, hmin,
    Nat.add_assoc]

theorem trimmed_cr (line : Bytes) : trimmed (line ++ [0x0D]) = line := by
  have hcr : byteAt (line ++ [0x0D]) line.length = 0x0D := by simp [byteAt]
  unfold trimmed trimCr
  rw [List.length_append, List.length_singleton, Nat.add_sub_cancel, if_pos ⟨by omega, hcr⟩,
    List.take_left]

theorem isPjlLine_cr {line : Bytes} (h : IsTextLine line) : IsPjlLine (line ++ [0x0D]) := by
  have hshort := h.short
  refine ⟨?_, by simpa using h.no_newline, by simp; omega⟩
  intro c hc
  rcases List.mem_append.mp hc with hc | hc
  · exact h.text c hc
  · rw [List.mem_singleton.mp hc]
    rfl

/-- A line that ends in `\r\n` is reported without them. -/
theorem emitLines_crlf (wantEnter : Bool) (pos : Nat) {line : Bytes} (rest : Bytes)
    (h : IsTextLine line) :
    emitLines wantEnter pos (line ++ crlf ++ rest) =
      if wantEnter && isEnterLine line then
        ⟨[.pjlLine pos line], pos + line.length + 2, rest, true⟩
      else
        let more := emitLines wantEnter (pos + line.length + 2) rest
        { more with events := .pjlLine pos line :: more.events } := by
  have hsplit : line ++ crlf ++ rest = line ++ [0x0D] ++ 0x0A :: rest := by simp [crlf]
  have hpos : pos + (line ++ [0x0D]).length + 1 = pos + line.length + 2 := by
    rw [List.length_append, List.length_singleton]
    omega
  have hline := emitLines_newline wantEnter pos rest (isPjlLine_cr h)
  rw [trimmed_cr, hpos] at hline
  rw [hsplit]
  exact hline

/-- The events of a list of lines reported one after the other. -/
def lineEvents : Nat → List Bytes → List Event
  | _, [] => []
  | pos, line :: lines => .pjlLine pos line :: lineEvents (pos + line.length + 2) lines

/-- The bytes of a list of lines, each with its line ending. -/
def linesBytes (lines : List Bytes) : Bytes := lines.flatMap (· ++ crlf)

theorem length_linesBytes_cons (line : Bytes) (lines : List Bytes) :
    (linesBytes (line :: lines)).length = line.length + 2 + (linesBytes lines).length := by
  simp [linesBytes, crlf]
  omega

theorem lineEvents_append (pos : Nat) (a b : List Bytes) :
    lineEvents pos (a ++ b) = lineEvents pos a ++ lineEvents (pos + (linesBytes a).length) b := by
  induction a generalizing pos with
  | nil => simp [lineEvents, linesBytes]
  | cons line a ih =>
    rw [List.cons_append, lineEvents, ih, lineEvents, length_linesBytes_cons, ← Nat.add_assoc,
      ← Nat.add_assoc, List.cons_append]

/-- Lines before the one that ends the envelope are all reported. -/
theorem emitLines_lines (wantEnter : Bool) (pos : Nat) (lines : List Bytes) (rest : Bytes)
    (htext : ∀ line ∈ lines, IsTextLine line)
    (hplain : ∀ line ∈ lines, isEnterLine line = false) :
    emitLines wantEnter pos (linesBytes lines ++ rest) =
      let more := emitLines wantEnter (pos + (linesBytes lines).length) rest
      { more with events := lineEvents pos lines ++ more.events } := by
  induction lines generalizing pos with
  | nil => simp [linesBytes, lineEvents]
  | cons line lines ih =>
    have hsplit : linesBytes (line :: lines) ++ rest =
        line ++ crlf ++ (linesBytes lines ++ rest) := by
      simp [linesBytes]
    rw [hsplit, emitLines_crlf _ _ _ (htext line (by simp)), hplain line (by simp), Bool.and_false,
      if_neg (by simp), ih _ (fun l hl => htext l (by simp [hl])) (fun l hl => hplain l (by simp [hl])),
      length_linesBytes_cons]
    simp [lineEvents, Nat.add_assoc]

/-! ## Walking what was written: records -/

/-- A record of the stream between the envelope and the end-of-job byte. -/
inductive Record where
  | page (h : PageHeader)
  | band (h : BandHeader) (payload : Bytes) (length_eq : payload.length = h.length.toNat)
  | endPage (copies : UInt16)

namespace Record

def bytes : Record → Bytes
  | page h => writePageHeader h
  | band h payload _ => writeBandHeader h ++ payload
  | endPage copies => writeEndPage copies

/-- The callback for a record that starts at `pos`. -/
def event (pos : Nat) : Record → Event
  | page h => .page pos h
  | band h payload _ => .band pos h payload
  | endPage copies => .endPage pos copies

/-- The callbacks for a list of records that starts at `pos`. -/
def events : Nat → List Record → List Event
  | _, [] => []
  | pos, r :: rs => r.event pos :: events (pos + r.bytes.length) rs

theorem events_append (pos : Nat) (rs rs' : List Record) :
    events pos (rs ++ rs') = events pos rs ++ events (pos + (rs.flatMap bytes).length) rs' := by
  induction rs generalizing pos with
  | nil => simp [events]
  | cons r rs ih => simp [events, ih, Nat.add_assoc]

end Record

/-- One step of the record loop reads one record. -/
theorem walkRecords_record (pos : Nat) (r : Record) (rest : Bytes) :
    walkRecords pos (r.bytes ++ rest) =
      (walkRecords (pos + r.bytes.length) rest).cons (r.event pos) := by
  cases r with
  | page h =>
    have hp := parsePageHeader_write h rest
    obtain ⟨t, tail, hcons, ht⟩ : ∃ t tail, writePageHeader h ++ rest = t :: tail ∧ t = REC_PAGE :=
      ⟨_, _, rfl, rfl⟩
    have hdrop : (writePageHeader h ++ rest).drop 17 = rest := List.drop_left' rfl
    simp only [Record.bytes, Record.event]
    rw [hcons] at hp hdrop ⊢
    rw [walkRecords, if_pos ht]
    split
    · rename_i he
      rw [hp] at he
      cases he
    · rename_i h' n he
      rw [hp] at he
      cases he
      rw [hdrop]
      rfl
  | band h payload hlen =>
    have hp := parseBandHeader_write h (payload ++ rest)
    obtain ⟨t, tail, hcons, ht⟩ :
        ∃ t tail, writeBandHeader h ++ (payload ++ rest) = t :: tail ∧ t = REC_BAND :=
      ⟨_, _, rfl, rfl⟩
    have hdrop : (writeBandHeader h ++ (payload ++ rest)).drop 11 = payload ++ rest :=
      List.drop_left' rfl
    simp only [Record.bytes, Record.event, List.append_assoc]
    rw [hcons] at hp hdrop ⊢
    rw [walkRecords, if_neg (by rw [ht]; decide), if_pos ht]
    split
    · rename_i he
      rw [hp] at he
      cases he
    · rename_i h' n he
      rw [hp] at he
      cases he
      rw [hdrop]
      simp only [← hlen, List.drop_left, List.take_left]
      simp
  | endPage copies =>
    obtain ⟨t, tail, hcons, ht⟩ :
        ∃ t tail, writeEndPage copies ++ rest = t :: tail ∧ t = REC_END_PAGE := ⟨_, _, rfl, rfl⟩
    have hdrop : (writeEndPage copies ++ rest).drop 3 = rest := List.drop_left' rfl
    have hlen : ¬(writeEndPage copies ++ rest).length < 3 := by simp
    have hrd : rd16be (writeEndPage copies ++ rest) 1 = copies := by
      simp [rd16be, byteAt, writeEndPage, Word.be16, Word.ofBe16_be16]
    simp only [Record.bytes, Record.event]
    rw [hcons] at hdrop hlen hrd ⊢
    rw [walkRecords, if_neg (by rw [ht]; decide), if_neg (by rw [ht]; decide), if_pos ht,
      if_neg hlen, hdrop, hrd]
    rfl

/-- The record loop reads a list of records and goes on behind it. -/
theorem walkRecords_records (pos : Nat) (rs : List Record) (rest : Bytes) :
    walkRecords pos (rs.flatMap Record.bytes ++ rest) =
      let r := walkRecords (pos + (rs.flatMap Record.bytes).length) rest
      { r with events := Record.events pos rs ++ r.events } := by
  induction rs generalizing pos with
  | nil => simp [Record.events]
  | cons r rs ih =>
    rw [List.flatMap_cons, List.append_assoc, walkRecords_record, ih]
    simp [Record.events, WalkResult.cons, Nat.add_assoc]

/-- The end-of-job byte and the UEL end a job. -/
theorem walkRecords_endJob (pos : Nat) :
    walkRecords pos (REC_END_JOB :: uel) = ⟨[.endJob pos, .pjlLine (pos + 1) uel], OK, none⟩ := by
  have htext : emitLines false (pos + 1) uel = ⟨[.pjlLine (pos + 1) uel], pos + 10, [], false⟩ := by
    have hlen : lineLength 4096 uel = some 9 := by decide
    have htrim : trimCr uel 9 = uel := by decide
    obtain ⟨c, tail, hcons, hc⟩ : ∃ c tail, uel = c :: tail ∧ isTextByte c = true :=
      ⟨0x1B, ascii "%-12345X", rfl, rfl⟩
    rw [hcons] at hlen htrim ⊢
    rw [emitLines]
    simp only [hc, hlen, htrim]
    rw [show (c :: tail).drop (9 + 1) = [] by rw [← hcons]; rfl, emitLines]
    simp [← hcons, uel, ascii]
  have htrail : walkTrailer (pos + 1) uel = ⟨[.pjlLine (pos + 1) uel], OK, none⟩ := by
    rw [walkTrailer, if_pos (by decide), htext]
    rfl
  rw [walkRecords, if_neg (by decide), if_neg (by decide), if_neg (by decide), if_pos rfl, htrail]
  rfl

end Airbridge.Qpdl
