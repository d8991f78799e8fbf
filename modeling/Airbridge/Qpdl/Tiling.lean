import Airbridge.Qpdl.Truncation

/-!
# The lines of the walker tile the text

`emit_lines` stops a line at a newline, at the end of the input or at 4096
bytes, and then goes on as if it had found a newline: it drops the byte it
stopped at, and a carriage return in front of it.  `Tiles` says that reported
lines and line endings make up a text, and `WholeLines` that no line of the
text stops anywhere but at its newline, or at the end of the input without a
carriage return.  For a walk that returns 0 the two are equivalent.
-/

namespace Airbridge.Qpdl

/-! ## Tiling -/

/-- The reported lines, each with exactly one line ending, make up `text` from
`pos` on, up to `rest`; the last line may also end with the input. -/
def Tiles (pos : Nat) (text : Bytes) : List Event → Bytes → Prop
  | [], rest => text = rest
  | .pjlLine offset line :: events, rest =>
    offset = pos ∧ ∃ ending more, text = line ++ ending ++ more ∧
      (ending = [0x0A] ∨ ending = crlf ∨ ending = [] ∧ more = []) ∧
      Tiles (pos + line.length + ending.length) more events rest
  | _ :: _, _ => False

def Event.offset : Event → Nat
  | .pjlLine offset _ => offset
  | .page offset _ => offset
  | .band offset _ _ => offset
  | .endPage offset _ => offset
  | .endJob offset => offset

/-- Where the first record starts, or the end of the data. -/
def firstRecord (data : Bytes) (events : List Event) : Nat :=
  ((events.find? fun e => !e.isLine).map Event.offset).getD data.length

/-- The lines in front of the first record tile the text up to it, and those
behind the end-of-job byte tile the rest of the input. -/
def TextTiled (data : Bytes) (events : List Event) : Prop :=
  Tiles 0 data (events.takeWhile Event.isLine) (data.drop (firstRecord data events)) ∧
    ∀ before k after, events = before ++ .endJob k :: after →
      Tiles (k + 1) (data.drop (k + 1)) after []

/-! ## Whole lines -/

/-- The bytes up to the first newline. -/
def firstLine (text : Bytes) : Bytes := text.takeWhile (· ≠ 0x0A)

/-- Every line of the text has at most 4096 bytes in front of its newline, and
the input does not end in a carriage return.  With `wantEnter`, only the lines
up to the one that ends the envelope. -/
def WholeLines (wantEnter : Bool) (text : Bytes) : Prop :=
  if text = [] then True
  else
    (firstLine text).length ≤ 4096 ∧
      ((firstLine text).length = text.length → text.getLast? ≠ some 0x0D) ∧
      ((wantEnter && isEnterLine (trimmed (firstLine text))) = true ∨
        WholeLines wantEnter (text.drop ((firstLine text).length + 1)))
termination_by text.length
decreasing_by
  rw [List.length_drop]
  have := List.length_pos_of_ne_nil (by assumption)
  omega

/-- What is behind the line that ends the envelope. -/
def behindEnvelope (text : Bytes) : Bytes :=
  if text = [] then []
  else if isEnterLine (trimmed (firstLine text)) then text.drop ((firstLine text).length + 1)
  else behindEnvelope (text.drop ((firstLine text).length + 1))
termination_by text.length
decreasing_by
  rw [List.length_drop]
  have := List.length_pos_of_ne_nil (by assumption)
  omega

/-- The lines in front of the records and behind the end-of-job byte are
whole. -/
def TextWhole (data : Bytes) : Prop :=
  WholeLines true data ∧
    ∀ (rs : List Bytes) (trailer : Bytes), (∀ r ∈ rs, IsRecord r) →
      behindEnvelope data = rs.flatten ++ REC_END_JOB :: trailer → WholeLines false trailer

/-! ## One line -/

/-- The line of `n` bytes stops where a line may stop. -/
def LineWhole (text : Bytes) (n : Nat) : Prop :=
  (∃ behind, text.drop n = 0x0A :: behind) ∨ n = text.length ∧ text.getLast? ≠ some 0x0D

theorem firstLine_eq {text : Bytes} {n : Nat} (hno : (0x0A : UInt8) ∉ text.take n)
    (hend : n = text.length ∨ ∃ behind, text.drop n = 0x0A :: behind) :
    firstLine text = text.take n := by
  have hall : ∀ c ∈ text.take n, decide (c ≠ 0x0A) = true := by
    intro c hc
    rw [decide_eq_true_iff]
    rintro rfl
    exact hno hc
  unfold firstLine
  conv_lhs => rw [← List.take_append_drop n text]
  rw [List.takeWhile_append_of_pos hall]
  rcases hend with rfl | ⟨behind, hbehind⟩
  · rw [List.drop_length, List.takeWhile_nil, List.append_nil]
  · rw [hbehind, List.takeWhile_cons_of_neg (by decide), List.append_nil]

theorem lineLength_le {room : Nat} {text : Bytes} {n : Nat} (h : lineLength room text = some n) :
    n ≤ room := by
  induction room generalizing text n with
  | zero => exact (Option.some.inj h).symm.le
  | succ room ih =>
    cases text with
    | nil => exact (Option.some.inj h).symm.le.trans (Nat.zero_le _)
    | cons c rest =>
      unfold lineLength at h
      split_ifs at h with hnl htext
      · exact (Option.some.inj h).symm.le.trans (Nat.zero_le _)
      · obtain ⟨k, hk, rfl⟩ := Option.map_eq_some_iff.mp h
        exact Nat.succ_le_succ (ih hk)

/-- The line the scanner finds is whole exactly when the first line of the
text is. -/
theorem lineWhole_iff {text : Bytes} {n : Nat} (hline : lineLength 4096 text = some n) :
    LineWhole text n ↔ (firstLine text).length ≤ 4096 ∧
      ((firstLine text).length = text.length → text.getLast? ≠ some 0x0D) := by
  obtain ⟨hle, -, hno, hend⟩ := lineLength_some hline
  have hroom := lineLength_le hline
  constructor
  · rintro (⟨behind, hbehind⟩ | ⟨rfl, hcr⟩)
    · have hlt : n < text.length := by
        by_contra hge
        rw [List.drop_eq_nil_of_le (not_lt.mp hge)] at hbehind
        cases hbehind
      rw [firstLine_eq hno (.inr ⟨behind, hbehind⟩), List.length_take_of_le hle]
      exact ⟨hroom, fun heq => absurd heq (by omega)⟩
    · rw [firstLine_eq hno (.inl rfl), List.take_length]
      exact ⟨hroom, fun _ => hcr⟩
  · rintro ⟨hshort, hcr⟩
    have hstop (hn : n = text.length) : LineWhole text n := by
      refine .inr ⟨hn, hcr ?_⟩
      rw [firstLine_eq hno (.inl hn), List.length_take_of_le hle, hn]
    rcases hend with rfl | hn | hnewline
    · cases hdrop : text.drop 4096 with
      | nil => exact hstop (le_antisymm hle (List.drop_eq_nil_iff.mp hdrop))
      | cons c behind =>
        by_cases hc : c = 0x0A
        · exact .inl ⟨behind, by rw [hdrop, hc]⟩
        · -- the line goes on behind the cut
          exfalso
          have hall : ∀ d ∈ text.take 4096, decide (d ≠ 0x0A) = true := by
            intro d hd
            rw [decide_eq_true_iff]
            rintro rfl
            exact hno hd
          unfold firstLine at hshort
          rw [← List.take_append_drop 4096 text, hdrop, List.takeWhile_append_of_pos hall,
            List.takeWhile_cons_of_pos (by simpa using hc), List.length_append, List.length_cons,
            List.length_take_of_le hle] at hshort
          omega
    · exact hstop hn
    · exact .inl hnewline

/-- The two forms of what is reported of a line. -/
theorem trimCr_cases (text : Bytes) (n : Nat) :
    0 < n ∧ byteAt text (n - 1) = 0x0D ∧ trimCr text n = text.take (n - 1) ∨
      (n = 0 ∨ byteAt text (n - 1) ≠ 0x0D) ∧ trimCr text n = text.take n := by
  unfold trimCr
  split_ifs with h
  · exact .inl ⟨h.1, h.2, rfl⟩
  · refine .inr ⟨?_, rfl⟩
    by_contra hcr
    rw [not_or, not_not] at hcr
    exact h ⟨Nat.pos_of_ne_zero hcr.1, hcr.2⟩

theorem getLast?_eq_byteAt {text : Bytes} (hne : text ≠ []) :
    text.getLast? = some (byteAt text (text.length - 1)) := by
  have hpos := List.length_pos_of_ne_nil hne
  rw [List.getLast?_eq_getElem?, byteAt_eq_getElem (by omega), List.getElem?_eq_getElem]

/-- How much of a line is reported says whether it ends in a carriage return. -/
theorem length_trimCr {text : Bytes} {n : Nat} (hle : n ≤ text.length) :
    (trimCr text n).length = n ∧ (n = 0 ∨ byteAt text (n - 1) ≠ 0x0D) ∨
      (trimCr text n).length + 1 = n ∧ byteAt text (n - 1) = 0x0D := by
  rcases trimCr_cases text n with ⟨hpos, hcr, heq⟩ | ⟨hcr, heq⟩
  · right
    rw [heq, List.length_take_of_le (by omega)]
    exact ⟨Nat.sub_add_cancel hpos, hcr⟩
  · left
    rw [heq, List.length_take_of_le hle]
    exact ⟨rfl, hcr⟩

theorem lineWhole_newline {text before behind : Bytes} {n : Nat}
    (htext : text = before ++ 0x0A :: behind) (hlen : before.length = n) : LineWhole text n :=
  .inl ⟨behind, by rw [htext, List.drop_left' hlen]⟩

/-- The newline behind a line, and what follows it. -/
theorem split_newline {text behind : Bytes} {n : Nat} (hbehind : text.drop n = 0x0A :: behind) :
    n < text.length ∧ text.drop (n + 1) = behind ∧ text = text.take n ++ 0x0A :: behind := by
  refine ⟨?_, ?_, ?_⟩
  · by_contra hge
    rw [List.drop_eq_nil_of_le (not_lt.mp hge)] at hbehind
    cases hbehind
  · rw [← List.drop_drop, hbehind]
    rfl
  · rw [← hbehind, List.take_append_drop]

/-- A line with its line ending behind it is whole. -/
theorem lineWhole_of_tile {text ending more : Bytes} {n : Nat} (hle : n ≤ text.length)
    (hmore : more.length = text.length - (n + 1)) (htext : text = trimCr text n ++ ending ++ more)
    (hending : ending = [0x0A] ∨ ending = crlf ∨ ending = [] ∧ more = []) : LineWhole text n := by
  -- the lengths decide which ending it is
  have hlen := congrArg List.length htext
  rw [List.length_append, List.length_append, hmore] at hlen
  have htrim := length_trimCr hle
  generalize trimCr text n = line at htext hlen htrim
  rcases hending with rfl | rfl | ⟨rfl, rfl⟩
  · rw [List.length_singleton] at hlen
    rw [List.append_assoc, List.singleton_append] at htext
    rcases htrim with ⟨hn, -⟩ | ⟨hn, hcr⟩
    · exact lineWhole_newline htext hn
    · -- the line would end in a newline and in a carriage return
      exfalso
      have hlf := byteAt_append_right line (0x0A :: more) 0
      rw [← htext, show line.length + 0 = n - 1 by omega, hcr] at hlf
      exact absurd (show (0x0D : UInt8) = 0x0A from hlf) (by decide)
  · rw [show crlf.length = 2 from rfl] at hlen
    refine lineWhole_newline (?_ : text = (line ++ [0x0D]) ++ 0x0A :: more) ?_
    · rw [htext]
      simp [crlf]
    · rw [List.length_append, List.length_singleton]
      omega
  · right
    rw [List.append_nil, List.append_nil] at htext
    subst htext
    rcases htrim with ⟨hn, hcr⟩ | ⟨hn, -⟩
    · refine ⟨hn.symm, ?_⟩
      intro hlast
      have hne : text ≠ [] := by
        rintro rfl
        cases hlast
      have hpos := List.length_pos_of_ne_nil hne
      rw [getLast?_eq_byteAt hne, hn] at hlast
      rcases hcr with hzero | hcr
      · omega
      · exact hcr (Option.some.inj hlast)
    · omega

/-- Behind what is reported of a whole line is one line ending, or the end. -/
theorem tile_of_lineWhole {text : Bytes} {n : Nat} (h : LineWhole text n) :
    ∃ ending, text = trimCr text n ++ ending ++ text.drop (n + 1) ∧
      (ending = [0x0A] ∨ ending = crlf ∨ ending = [] ∧ text.drop (n + 1) = []) := by
  rcases h with ⟨behind, hbehind⟩ | ⟨rfl, hcr⟩
  · obtain ⟨hlt, hdrop, hsplit⟩ := split_newline hbehind
    rw [hdrop]
    rcases trimCr_cases text n with ⟨hpos, hcr, heq⟩ | ⟨-, heq⟩
    · refine ⟨crlf, ?_, .inr (.inl rfl)⟩
      have htake : text.take n = text.take (n - 1) ++ [0x0D] := by
        rw [byteAt_eq_getElem (by omega)] at hcr
        have hsucc := List.take_append_getElem (l := text) (i := n - 1) (by omega)
        rw [hcr, Nat.sub_add_cancel hpos] at hsucc
        exact hsucc.symm
      rw [heq]
      conv_lhs => rw [hsplit, htake]
      rw [List.append_assoc, List.append_assoc]
      rfl
    · refine ⟨[0x0A], ?_, .inl rfl⟩
      rw [heq]
      conv_lhs => rw [hsplit]
      rw [List.append_assoc]
      rfl
  · have hdrop : text.drop (text.length + 1) = [] := List.drop_eq_nil_of_le (Nat.le_succ _)
    refine ⟨[], ?_, .inr (.inr ⟨rfl, hdrop⟩)⟩
    rcases trimCr_cases text text.length with ⟨hpos, hbyte, -⟩ | ⟨-, heq⟩
    · rw [getLast?_eq_byteAt (List.ne_nil_of_length_pos hpos), hbyte] at hcr
      exact absurd rfl hcr
    · rw [heq, hdrop, List.take_length, List.append_nil, List.append_nil]

/-- What is reported of a line and one line ending make up the line and the
byte behind it exactly when the line is whole. -/
theorem tile_iff {text : Bytes} {n : Nat} (hle : n ≤ text.length) :
    (∃ ending, text = trimCr text n ++ ending ++ text.drop (n + 1) ∧
      (ending = [0x0A] ∨ ending = crlf ∨ ending = [] ∧ text.drop (n + 1) = [])) ↔
      LineWhole text n := by
  constructor
  · rintro ⟨ending, htext, hending⟩
    exact lineWhole_of_tile hle List.length_drop htext hending
  · exact tile_of_lineWhole

theorem firstLine_of_whole {text : Bytes} {n : Nat} (hline : lineLength 4096 text = some n)
    (h : LineWhole text n) :
    (firstLine text).length = n ∧ trimmed (firstLine text) = trimCr text n := by
  obtain ⟨hle, -, hno, -⟩ := lineLength_some hline
  have hend : n = text.length ∨ ∃ behind, text.drop n = 0x0A :: behind := by
    rcases h with hnewline | ⟨hn, -⟩
    · exact .inr hnewline
    · exact .inl hn
  have hlen : (text.take n).length = n := List.length_take_of_le hle
  have htrim := trimCr_append (text.take n) (text.drop n)
  rw [List.take_append_drop, hlen] at htrim
  rw [firstLine_eq hno hend, hlen, htrim]
  exact ⟨rfl, rfl⟩

/-- The first line of a text is whole, and the rest is read on. -/
theorem wholeLines_line {wantEnter : Bool} {c : UInt8} {tail : Bytes} {n : Nat}
    (hline : lineLength 4096 (c :: tail) = some n) :
    WholeLines wantEnter (c :: tail) ↔ LineWhole (c :: tail) n ∧
      ((wantEnter && isEnterLine (trimCr (c :: tail) n)) = true ∨
        WholeLines wantEnter ((c :: tail).drop (n + 1))) := by
  rw [WholeLines, if_neg (List.cons_ne_nil c tail), ← and_assoc, ← lineWhole_iff hline]
  apply and_congr_right
  intro h
  obtain ⟨hlen, htrim⟩ := firstLine_of_whole hline h
  rw [hlen, htrim]

/-! ## All lines -/

/-- `emit_lines` reports nothing and stays where it is, or its first line
starts there. -/
theorem emitLines_first (wantEnter : Bool) (pos : Nat) (text : Bytes) :
    (emitLines wantEnter pos text).events = [] ∧ (emitLines wantEnter pos text).rest = text ∨
      ∃ line events, (emitLines wantEnter pos text).events = .pjlLine pos line :: events := by
  fun_cases emitLines wantEnter pos text with
  | case1 | case2 | case3 => exact .inl ⟨rfl, rfl⟩
  | case4 => exact .inr ⟨_, _, rfl⟩
  | case5 => exact .inr ⟨_, _, rfl⟩

/-- The first line tiles its part of the text if it is whole, and what is
reported next starts behind the byte that was dropped. -/
theorem tiles_cons_iff {pos n : Nat} {text rest : Bytes} {events : List Event}
    (hle : n ≤ text.length)
    (hnext : events = [] ∧ rest = text.drop (n + 1) ∨
      ∃ line more, events = .pjlLine (pos + min (n + 1) text.length) line :: more) :
    Tiles pos text (.pjlLine pos (trimCr text n) :: events) rest ↔
      LineWhole text n ∧
        Tiles (pos + min (n + 1) text.length) (text.drop (n + 1)) events rest := by
  have hpos (ending : Bytes) (htext : text = trimCr text n ++ ending ++ text.drop (n + 1)) :
      pos + (trimCr text n).length + ending.length = pos + min (n + 1) text.length := by
    have hlen := congrArg List.length htext
    rw [List.length_append, List.length_append, List.length_drop] at hlen
    omega
  rw [← tile_iff hle]
  constructor
  · rintro ⟨-, ending, more, htext, hending, hmore⟩
    have hdrop : more = text.drop (n + 1) := by
      rcases hnext with ⟨rfl, rfl⟩ | ⟨line, events', rfl⟩
      · exact hmore
      · -- the offset of the next line says where the first one ends
        have hoffset : pos + min (n + 1) text.length =
            pos + (trimCr text n).length + ending.length := hmore.1
        have hbehind : (trimCr text n ++ ending ++ more).drop (trimCr text n ++ ending).length =
            more := List.drop_left
        rw [← htext, List.length_append] at hbehind
        rw [← hbehind]
        rcases Nat.lt_or_ge n text.length with hlt | hge
        · congr 1
          omega
        · rw [List.drop_eq_nil_of_le (by omega), List.drop_eq_nil_of_le (by omega)]
    subst hdrop
    rw [hpos ending htext] at hmore
    exact ⟨⟨ending, htext, hending⟩, hmore⟩
  · rintro ⟨⟨ending, htext, hending⟩, hmore⟩
    refine ⟨rfl, ending, text.drop (n + 1), htext, hending, ?_⟩
    rw [hpos ending htext]
    exact hmore

/-- The lines `emit_lines` reports tile the text exactly when its lines are
whole. -/
theorem emitLines_tiles_iff (wantEnter : Bool) (pos : Nat) (text : Bytes)
    (hgood : if wantEnter then (emitLines wantEnter pos text).sawEnter = true
      else (emitLines wantEnter pos text).rest = []) :
    Tiles pos text (emitLines wantEnter pos text).events (emitLines wantEnter pos text).rest ↔
      WholeLines wantEnter text := by
  fun_induction emitLines wantEnter pos text with
  | case1 pos =>
    rw [WholeLines, if_pos rfl]
    exact ⟨fun _ => trivial, fun _ => rfl⟩
  | case2 pos c tail hc =>
    cases wantEnter with
    | true => exact absurd hgood Bool.false_ne_true
    | false => exact absurd hgood (List.cons_ne_nil c tail)
  | case3 pos c tail hc hline =>
    cases wantEnter with
    | true => exact absurd hgood Bool.false_ne_true
    | false => exact absurd hgood (List.cons_ne_nil c tail)
  | case4 pos c tail hc n hline line pos' rest' henter =>
    have htiles : Tiles pos (c :: tail) [.pjlLine pos line] rest' ↔
        LineWhole (c :: tail) n ∧ Tiles pos' rest' [] rest' :=
      tiles_cons_iff (lineLength_some hline).1 (.inl ⟨rfl, rfl⟩)
    rw [wholeLines_line hline]
    exact htiles.trans (and_congr_right fun _ => iff_of_true rfl (.inl henter))
  | case5 pos c tail hc n hline line pos' rest' henter more ih =>
    have hnext : more.events = [] ∧ more.rest = rest' ∨
        ∃ line events, more.events = .pjlLine pos' line :: events :=
      emitLines_first wantEnter pos' rest'
    have htiles : Tiles pos (c :: tail) (.pjlLine pos line :: more.events) more.rest ↔
        LineWhole (c :: tail) n ∧ Tiles pos' rest' more.events more.rest :=
      tiles_cons_iff (lineLength_some hline).1 hnext
    rw [wholeLines_line hline]
    refine htiles.trans (and_congr_right fun _ => (ih hgood).trans ?_)
    exact ⟨.inr, fun h => h.resolve_left henter⟩

/-- Behind whole lines, the records start where the walker says. -/
theorem behindEnvelope_eq (pos : Nat) (text : Bytes)
    (hsaw : (emitLines true pos text).sawEnter = true) (hwhole : WholeLines true text) :
    behindEnvelope text = (emitLines true pos text).rest := by
  fun_induction emitLines true pos text with
  | case1 | case2 | case3 => exact absurd hsaw Bool.false_ne_true
  | case4 pos c tail hc n hline line pos' rest' henter =>
    obtain ⟨hlen, htrim⟩ := firstLine_of_whole hline ((wholeLines_line hline).mp hwhole).1
    rw [behindEnvelope, if_neg (List.cons_ne_nil c tail), htrim, hlen]
    exact if_pos henter
  | case5 pos c tail hc n hline line pos' rest' henter more ih =>
    obtain ⟨hfirst, hrest⟩ := (wholeLines_line hline).mp hwhole
    obtain ⟨hlen, htrim⟩ := firstLine_of_whole hline hfirst
    rw [behindEnvelope, if_neg (List.cons_ne_nil c tail), htrim, hlen]
    exact (if_neg henter).trans (ih hsaw (hrest.resolve_left henter))

/-! ## The text behind the end of the job -/

theorem walkTrailer_tiles_iff (pos : Nat) (trailer : Bytes)
    (hrc : (walkTrailer pos trailer).rc = OK) :
    Tiles pos trailer (walkTrailer pos trailer).events [] ↔ WholeLines false trailer := by
  unfold walkTrailer at hrc ⊢
  dsimp only at hrc ⊢
  split_ifs at hrc ⊢ with huel hrest hnil
  · have htiles := emitLines_tiles_iff false pos trailer hrest
    rw [hrest] at htiles
    exact htiles
  · exact absurd (show ERECORD = OK from hrc) (by decide)
  · rw [hnil, WholeLines, if_pos rfl]
    exact ⟨fun _ => trivial, fun _ => rfl⟩
  · exact absurd (show ERECORD = OK from hrc) (by decide)

/-- A record list and the end of the job behind it. -/
theorem walkRecords_job (pos : Nat) (rs : List Record) (trailer : Bytes) :
    let k := pos + (rs.flatMap Record.bytes).length
    let r := walkRecords pos (rs.flatMap Record.bytes ++ REC_END_JOB :: trailer)
    r.events = Record.events pos rs ++ .endJob k :: (walkTrailer (k + 1) trailer).events ∧
      r.rc = (walkTrailer (k + 1) trailer).rc := by
  intro k r
  have hr : r = { walkRecords k (REC_END_JOB :: trailer) with
      events := Record.events pos rs ++ (walkRecords k (REC_END_JOB :: trailer)).events } :=
    walkRecords_records pos rs _
  rw [hr, walkRecords_end]
  exact ⟨rfl, rfl⟩

/-- What is accepted is a list of records, and at most one end of the job. -/
theorem exists_records_of_ok (pos : Nat) (s : Bytes) (hrc : (walkRecords pos s).rc = OK) :
    ∃ rs : List Record, s = rs.flatMap Record.bytes ∨
      ∃ trailer, s = rs.flatMap Record.bytes ++ REC_END_JOB :: trailer := by
  induction hn : s.length using Nat.strongRecOn generalizing pos s with
  | ind n ih =>
    rcases walkRecords_cases pos s with
      rfl | ⟨r, s', rfl⟩ | ⟨tail, rfl⟩ | hcut | ⟨t, tail, rfl, hfail⟩
    · exact ⟨[], .inl rfl⟩
    · have hlt : s'.length < n := by
        have hpos := r.bytes_pos
        rw [← hn, List.length_append]
        omega
      rw [walkRecords_record] at hrc
      obtain ⟨rs, hrs | ⟨trailer, hrs⟩⟩ := ih _ hlt _ s' hrc rfl
      · exact ⟨r :: rs, .inl (by rw [List.flatMap_cons, ← hrs])⟩
      · exact ⟨r :: rs, .inr ⟨trailer, by rw [List.flatMap_cons, List.append_assoc, ← hrs]⟩⟩
    · exact ⟨[], .inr ⟨tail, rfl⟩⟩
    · rw [hcut] at hrc
      exact absurd (show ETRUNCATED = OK from hrc) (by decide)
    · rw [hfail] at hrc
      exact absurd (show ERECORD = OK from hrc) (by decide)

def Event.isEndJob : Event → Bool
  | .endJob _ => true
  | _ => false

theorem events_not_endJob (pos : Nat) (rs : List Record) :
    ∀ e ∈ Record.events pos rs, e.isEndJob = false := by
  induction rs generalizing pos with
  | nil => exact fun e he => absurd he List.not_mem_nil
  | cons r rs ih =>
    intro e he
    rcases List.mem_cons.mp he with rfl | he
    · cases r <;> rfl
    · exact ih _ e he

theorem not_endJob_of_isLine {e : Event} (h : e.isLine = true) : e.isEndJob = false := by
  cases e with
  | pjlLine => rfl
  | page | band | endPage | endJob => cases h

theorem walkTrailer_not_endJob (pos : Nat) (trailer : Bytes) :
    ∀ e ∈ (walkTrailer pos trailer).events, e.isEndJob = false := by
  intro e he
  apply not_endJob_of_isLine
  by_contra hno
  have hmem : e ∈ (walkTrailer pos trailer).records :=
    List.mem_filter.mpr ⟨he, by simpa using hno⟩
  rw [walkTrailer_records] at hmem
  exact absurd hmem List.not_mem_nil

/-- Records without an end of the job report none. -/
theorem walkRecords_open (pos : Nat) (rs : List Record) :
    (walkRecords pos (rs.flatMap Record.bytes)).events = Record.events pos rs := by
  have hrun := walkRecords_records pos rs []
  have hlast : walkRecords (pos + (rs.flatMap Record.bytes).length) [] = ⟨[], OK, none⟩ := by
    rw [walkRecords]
  rw [hlast, List.append_nil] at hrun
  rw [hrun]
  exact List.append_nil _

/-- The place of the only end of the job in a list of callbacks. -/
theorem endJob_unique {a b before after : List Event} {j k : Nat}
    (ha : ∀ e ∈ a, e.isEndJob = false) (hb : ∀ e ∈ b, e.isEndJob = false)
    (h : a ++ .endJob j :: b = before ++ .endJob k :: after) :
    a = before ∧ j = k ∧ b = after := by
  induction a generalizing before with
  | nil =>
    cases before with
    | nil =>
      rw [List.nil_append, List.nil_append, List.cons.injEq] at h
      exact ⟨rfl, Event.endJob.inj h.1, h.2⟩
    | cons e before =>
      rw [List.nil_append, List.cons_append, List.cons.injEq] at h
      have hmem : Event.endJob k ∈ b := by
        rw [h.2]
        exact List.mem_append_right _ List.mem_cons_self
      exact absurd (show true = false from hb _ hmem) (by decide)
  | cons e a ih =>
    cases before with
    | nil =>
      rw [List.nil_append, List.cons_append, List.cons.injEq] at h
      have hno := ha e List.mem_cons_self
      rw [h.1] at hno
      exact absurd (show true = false from hno) (by decide)
    | cons e' before =>
      rw [List.cons_append, List.cons_append, List.cons.injEq] at h
      obtain ⟨hab, hjk, hba⟩ := ih (fun e he => ha e (List.mem_cons_of_mem _ he)) h.2
      exact ⟨by rw [h.1, hab], hjk, hba⟩

/-- The text behind the end-of-job byte of an accepted record list `s`, which
is what the data holds from `pos` on. -/
theorem walkRecords_tiles_iff {data s : Bytes} {pos : Nat} (hs : data.drop pos = s)
    (hrc : (walkRecords pos s).rc = OK) :
    (∀ before k after, (walkRecords pos s).events = before ++ .endJob k :: after →
        Tiles (k + 1) (data.drop (k + 1)) after []) ↔
      ∀ (rs : List Bytes) (trailer : Bytes), (∀ r ∈ rs, IsRecord r) →
        s = rs.flatten ++ REC_END_JOB :: trailer → WholeLines false trailer := by
  -- the lines behind the end of the job, for one way to read the data
  have hjob (rs : List Record) (trailer : Bytes)
      (hsplit : s = rs.flatMap Record.bytes ++ REC_END_JOB :: trailer) :
      let k := pos + (rs.flatMap Record.bytes).length
      Tiles (k + 1) (data.drop (k + 1)) (walkTrailer (k + 1) trailer).events [] ↔
        WholeLines false trailer := by
    intro k
    have hdrop : data.drop (k + 1) = trailer := by
      rw [show k + 1 = pos + ((rs.flatMap Record.bytes).length + 1) by omega, ← List.drop_drop, hs,
        hsplit, ← List.drop_drop, List.drop_left]
      rfl
    rw [hsplit, (walkRecords_job pos rs trailer).2] at hrc
    rw [hdrop]
    exact walkTrailer_tiles_iff _ trailer hrc
  constructor
  · intro htiled rs trailer hrs hsplit
    obtain ⟨records, hrecords⟩ := exists_records hrs
    rw [← hrecords] at hsplit
    apply (hjob records trailer hsplit).mp
    refine htiled (Record.events pos records) _ _ ?_
    rw [hsplit]
    exact (walkRecords_job pos records trailer).1
  · intro hwhole before k after hevents
    obtain ⟨records, hsplit | ⟨trailer, hsplit⟩⟩ := exists_records_of_ok pos s hrc
    · have hmem : Event.endJob k ∈ Record.events pos records := by
        rw [← walkRecords_open, ← hsplit, hevents]
        exact List.mem_append_right _ List.mem_cons_self
      exact absurd (show true = false from events_not_endJob _ _ _ hmem) (by decide)
    · have hrun := (walkRecords_job pos records trailer).1
      rw [← hsplit, hevents] at hrun
      obtain ⟨-, rfl, rfl⟩ := endJob_unique (events_not_endJob pos records)
        (walkTrailer_not_endJob _ trailer) hrun.symm
      apply (hjob records trailer hsplit).mpr
      refine hwhole (records.map Record.bytes) trailer ?_ ?_
      · intro r hr
        obtain ⟨record, -, rfl⟩ := List.mem_map.mp hr
        exact isRecord_bytes record
      · rw [hsplit, List.flatMap_def]

/-! ## The whole walk -/

/-- The record loop reports a record where it starts, if it reports one. -/
theorem walkRecords_first (pos : Nat) (s : Bytes) :
    (walkRecords pos s).events = [] ∧ ((walkRecords pos s).rc = OK → s = []) ∨
      ∃ e events, (walkRecords pos s).events = e :: events ∧ e.isLine = false ∧ e.offset = pos := by
  rcases walkRecords_cases pos s with
    rfl | ⟨r, s', rfl⟩ | ⟨tail, rfl⟩ | hcut | ⟨t, tail, rfl, hfail⟩
  · rw [walkRecords]
    exact .inl ⟨rfl, fun _ => rfl⟩
  · rw [walkRecords_record]
    right
    refine ⟨r.event pos, _, rfl, ?_, ?_⟩
    · cases r <;> rfl
    · cases r <;> rfl
  · rw [walkRecords_end]
    exact .inr ⟨.endJob pos, _, rfl, rfl, rfl⟩
  · rw [hcut]
    exact .inl ⟨rfl, fun h => absurd (show ETRUNCATED = OK from h) (by decide)⟩
  · rw [hfail]
    exact .inl ⟨rfl, fun h => absurd (show ERECORD = OK from h) (by decide)⟩

theorem walk_ok_enter {data : Bytes} (hrc : (walk data).rc = OK) :
    (emitLines true 0 data).sawEnter = true ∧
      (walkRecords (emitLines true 0 data).pos (emitLines true 0 data).rest).rc = OK := by
  by_cases hsaw : (emitLines true 0 data).sawEnter = true
  · rw [walk_of_enter hsaw] at hrc
    exact ⟨hsaw, hrc⟩
  · rw [Bool.not_eq_true] at hsaw
    rw [walk, hsaw] at hrc
    exact absurd (show ENOPJL = OK from hrc) (by decide)

theorem drop_emitLines_pos (data : Bytes) :
    data.drop (emitLines true 0 data).pos = (emitLines true 0 data).rest := by
  obtain ⟨hsuffix, hlen⟩ := emitLines_pos true 0 data
  conv_rhs => rw [List.suffix_iff_eq_drop.mp hsuffix]
  congr 1
  omega

/-- The lines in front of the records. -/
theorem envelope_tiles_iff {data : Bytes} (hrc : (walk data).rc = OK) :
    Tiles 0 data ((walk data).events.takeWhile Event.isLine)
        (data.drop (firstRecord data (walk data).events)) ↔ WholeLines true data := by
  obtain ⟨hsaw, hok⟩ := walk_ok_enter hrc
  have hlines := emitLines_isLine true 0 data
  have hnone : (emitLines true 0 data).events.find? (fun e => !e.isLine) = none := by
    rw [List.find?_eq_none]
    intro e he
    rw [hlines e he]
    decide
  have hevents : (walk data).events = (emitLines true 0 data).events ++
      (walkRecords (emitLines true 0 data).pos (emitLines true 0 data).rest).events := by
    rw [walk_of_enter hsaw]
  have hgood := emitLines_tiles_iff true 0 data hsaw
  rw [← hgood, firstRecord, hevents, List.takeWhile_append_of_pos hlines, List.find?_append, hnone,
    Option.none_or]
  rcases walkRecords_first (emitLines true 0 data).pos (emitLines true 0 data).rest with
    ⟨hnil, hrest⟩ | ⟨e, events, hcons, he, hoffset⟩
  · rw [hnil, List.takeWhile_nil, List.append_nil, List.find?_nil, hrest hok, Option.map_none,
      Option.getD_none, List.drop_length]
  · rw [hcons, List.takeWhile_cons_of_neg (by rw [he]; decide), List.append_nil,
      List.find?_cons_of_pos (by rw [he]; rfl), Option.map_some, Option.getD_some, hoffset,
      drop_emitLines_pos]

/-- For a walk that returns 0, the reported lines and their line endings make
up the text in front of the records, and the text behind the end-of-job byte,
exactly when every line of these texts has at most 4096 bytes and none ends
the input with a carriage return. -/
theorem walk_tiled_iff (data : Bytes) (hrc : (walk data).rc = OK) :
    TextTiled data (walk data).events ↔ TextWhole data := by
  obtain ⟨hsaw, hok⟩ := walk_ok_enter hrc
  have hlines := emitLines_isLine true 0 data
  have hevents : (walk data).events = (emitLines true 0 data).events ++
      (walkRecords (emitLines true 0 data).pos (emitLines true 0 data).rest).events := by
    rw [walk_of_enter hsaw]
  unfold TextTiled TextWhole
  rw [envelope_tiles_iff hrc]
  apply and_congr_right
  intro hwhole
  rw [behindEnvelope_eq 0 data hsaw hwhole,
    ← walkRecords_tiles_iff (drop_emitLines_pos data) hok, hevents]
  constructor
  · intro htiled before k after hsplit
    refine htiled ((emitLines true 0 data).events ++ before) k after ?_
    rw [hsplit, List.append_assoc]
  · intro htiled before k after hsplit
    rcases List.append_eq_append_iff.mp hsplit with ⟨before', rfl, hrest⟩ | ⟨c, hbefore, hrest⟩
    · exact htiled before' k after hrest
    · -- the end of the job is not among the lines
      cases c with
      | nil => exact htiled [] k after hrest.symm
      | cons e c =>
        rw [List.cons_append, List.cons.injEq] at hrest
        have hmem : e ∈ (emitLines true 0 data).events := by
          rw [hbefore]
          exact List.mem_append_right _ List.mem_cons_self
        have hline := hlines e hmem
        rw [← hrest.1] at hline
        exact absurd (show false = true from hline) (by decide)

/-- An envelope of one line, and an end of page. -/
theorem walk_tiled_iff_sample :
    let data : Bytes := sampleEnterLine ++ 0x0A :: [0x01, 0x00, 0x02]
    TextTiled data (walk data).events ↔ TextWhole data := by
  have hline : IsPjlLine sampleEnterLine := ⟨by decide +kernel, by decide +kernel, by decide +kernel⟩
  have henter : (true && isEnterLine (trimmed sampleEnterLine)) = true := by decide
  have hlines := emitLines_newline true 0 [0x01, 0x00, 0x02] hline
  rw [if_pos henter] at hlines
  refine walk_tiled_iff _ ?_
  rw [walk_of_enter (by rw [hlines]), hlines]
  show (walkRecords _ ((Record.endPage 2).bytes ++ [])).rc = OK
  rw [walkRecords_record, walkRecords]
  rfl

/-! ## A line above the limit -/

/-- A text line at the limit is cut there, whatever follows. -/
theorem lineLength_cut {line : Bytes} (rest : Bytes) (htext : ∀ c ∈ line, isTextByte c = true)
    (hnl : (0x0A : UInt8) ∉ line) : lineLength line.length (line ++ rest) = some line.length := by
  induction line with
  | nil => rfl
  | cons c line ih =>
    have hc : c ≠ 0x0A := fun h => hnl (h ▸ List.mem_cons_self)
    have hrest := ih (fun c' hc' => htext c' (List.mem_cons_of_mem c hc'))
      (fun h => hnl (List.mem_cons_of_mem c h))
    rw [List.length_cons, List.cons_append, lineLength, if_neg hc, htext c List.mem_cons_self,
      hrest]
    rfl

/-- A text line at the limit is reported, and the byte behind it is dropped. -/
theorem emitLines_cut (wantEnter : Bool) (pos : Nat) {line : Bytes} (d : UInt8) (rest : Bytes)
    (h : IsPjlLine line) (hlen : line.length = 4096) :
    emitLines wantEnter pos (line ++ d :: rest) =
      if wantEnter && isEnterLine (trimmed line) then
        ⟨[.pjlLine pos (trimmed line)], pos + 4096 + 1, rest, true⟩
      else
        let more := emitLines wantEnter (pos + 4096 + 1) rest
        { more with events := .pjlLine pos (trimmed line) :: more.events } := by
  obtain ⟨c, tail, rfl⟩ : ∃ c tail, line = c :: tail :=
    List.exists_cons_of_length_pos (by rw [hlen]; exact Nat.succ_pos 4095)
  have hc : isTextByte c = true := h.text c List.mem_cons_self
  have hline := lineLength_cut (d :: rest) h.text h.no_newline
  have htrim := trimCr_append (c :: tail) (d :: rest)
  have hdrop : (c :: tail ++ d :: rest).drop (4096 + 1) = rest := by
    rw [List.append_cons]
    apply List.drop_left'
    rw [List.length_append, hlen]
    rfl
  have hmin : min (4096 + 1) (c :: tail ++ d :: rest).length = 4096 + 1 := by
    rw [List.length_append, List.length_cons (a := d), hlen]
    omega
  rw [hlen] at hline htrim
  rw [List.cons_append] at hline htrim hdrop hmin ⊢
  rw [emitLines]
  simp only [hc, Bool.not_true, Bool.false_eq_true, if_false, hline, htrim, hdrop, hmin,
    Nat.add_assoc]

/-- 4096 bytes `A`. -/
def longLine : Bytes := List.replicate 4096 0x41

/-- A line one byte above the limit, and the line that ends the envelope. -/
def longEnvelope : Bytes := longLine ++ 0x41 :: 0x0A :: (sampleEnterLine ++ [0x0A])

theorem mem_longLine {c : UInt8} (h : c ∈ longLine) : c = 0x41 := List.eq_of_mem_replicate h

theorem length_longLine : longLine.length = 4096 := List.length_replicate

theorem isPjlLine_longLine : IsPjlLine longLine where
  text := by
    intro c hc
    rw [mem_longLine hc]
    rfl
  no_newline := fun h => absurd (mem_longLine h) (by decide)
  short := length_longLine.le

theorem trimmed_longLine : trimmed longLine = longLine := by
  rcases trimCr_cases longLine longLine.length with ⟨hpos, hcr, -⟩ | ⟨-, heq⟩
  · rw [byteAt_eq_getElem (by omega)] at hcr
    have h := mem_longLine (List.getElem_mem (show longLine.length - 1 < longLine.length by omega))
    rw [hcr] at h
    exact absurd h (by decide)
  · rw [trimmed, heq, List.take_length]

theorem isEnterLine_longLine : isEnterLine longLine = false := by
  rw [isEnterLine, decide_eq_false_iff_not]
  rintro ⟨-, henter⟩
  have hspace : (0x20 : UInt8) ∈ enterLanguage := by decide
  exact absurd (mem_longLine (henter.subset hspace)) (by decide)

/-- The walker takes the long line apart: 4096 bytes of it are reported, the
last one is dropped, and its newline is an empty line of its own. -/
theorem emitLines_longEnvelope :
    emitLines true 0 longEnvelope =
      ⟨[.pjlLine 0 longLine, .pjlLine 4097 [], .pjlLine 4098 sampleEnterLine], 4123, [], true⟩ := by
  have hempty : IsPjlLine [] :=
    ⟨fun c hc => absurd hc List.not_mem_nil, List.not_mem_nil, Nat.zero_le 4096⟩
  have henter : IsPjlLine sampleEnterLine :=
    ⟨by decide +kernel, by decide +kernel, by decide +kernel⟩
  have hlast : emitLines true 4098 (sampleEnterLine ++ [0x0A]) =
      ⟨[.pjlLine 4098 sampleEnterLine], 4123, [], true⟩ := by
    rw [emitLines_newline true 4098 [] henter, if_pos (by decide)]
    rfl
  have hmiddle : emitLines true 4097 (0x0A :: (sampleEnterLine ++ [0x0A])) =
      ⟨[.pjlLine 4097 [], .pjlLine 4098 sampleEnterLine], 4123, [], true⟩ := by
    have hline := emitLines_newline true 4097 (sampleEnterLine ++ [0x0A]) hempty
    rw [if_neg (by decide), List.length_nil, Nat.add_zero, hlast] at hline
    exact hline
  have hline := emitLines_cut true 0 0x41 (0x0A :: (sampleEnterLine ++ [0x0A])) isPjlLine_longLine
    length_longLine
  rw [trimmed_longLine, isEnterLine_longLine, Bool.and_false, if_neg Bool.false_ne_true,
    Nat.zero_add, hmiddle] at hline
  exact hline

/-- The over-long line is accepted, and its last byte is in no reported line
and no line ending. -/
theorem longEnvelope_not_tiled :
    (walk longEnvelope).rc = OK ∧ ¬TextTiled longEnvelope (walk longEnvelope).events := by
  have hlines := emitLines_longEnvelope
  have hrc : (walk longEnvelope).rc = OK := by
    rw [walk_of_enter (by rw [hlines]), hlines]
    show (walkRecords 4123 []).rc = OK
    rw [walkRecords]
  refine ⟨hrc, ?_⟩
  rintro ⟨htiles, -⟩
  have hevents : (walk longEnvelope).events =
      [.pjlLine 0 longLine, .pjlLine 4097 [], .pjlLine 4098 sampleEnterLine] := by
    rw [walk_of_enter (by rw [hlines]), hlines]
    show _ ++ (walkRecords 4123 []).events = _
    rw [walkRecords]
    rfl
  rw [hevents] at htiles
  obtain ⟨-, ending, more, htext, hending, -⟩ := htiles
  rw [longEnvelope, List.append_assoc, List.append_cancel_left_eq] at htext
  -- what follows the first reported line is `A`, not a line ending
  rcases hending with rfl | rfl | ⟨rfl, rfl⟩
  · exact absurd (List.cons.inj htext).1 (by decide)
  · exact absurd (List.cons.inj htext).1 (by decide)
  · exact absurd htext (List.cons_ne_nil _ _)

end Airbridge.Qpdl
