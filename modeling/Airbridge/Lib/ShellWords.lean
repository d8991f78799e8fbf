import Mathlib.Data.List.Basic
import Mathlib.Tactic.SplitIfs

/-!
# The words of a command line

`words` splits a line as a shell does that has nothing to expand: at blanks,
with single and double quotes.  It has no result when a quote stays open, or
when the shell would act on a character: expand it, escape with it, or end the
command at it.

`Quoted` says how a word can be written, and `words_line` reads a line of such
words back.
-/

namespace ShellWords

abbrev Text := List UInt8

def isBlank (b : UInt8) : Bool := b = 32 || b = 9

/-- Outside quotes the shell acts on these: `|&;<>()$`, a backquote, a backslash,
`*?[` and the end of a line. -/
def acts (b : UInt8) : Bool :=
  b ∈ [124, 38, 59, 60, 62, 40, 41, 36, 96, 92, 42, 63, 91, 10]

/-- And on these, `#` and `~`, at the start of a word. -/
def actsFirst (b : UInt8) : Bool := b ∈ [35, 126]

/-- Between double quotes it acts on `$`, a backquote and a backslash. -/
def actsQuoted (b : UInt8) : Bool := b ∈ [36, 96, 92]

inductive Mode where
  /-- Between words. -/
  | blank
  | bare
  | single
  | double
deriving Repr, DecidableEq

/-- The words from here on, with `word` read of the word that is open. -/
def scan : Mode → Text → Text → Option (List Text)
  | .blank, _, [] => some []
  | .blank, word, b :: line =>
    if isBlank b then scan .blank word line
    else if b = 39 then scan .single [] line
    else if b = 34 then scan .double [] line
    else if acts b || actsFirst b then none
    else scan .bare [b] line
  | .bare, word, [] => some [word]
  | .bare, word, b :: line =>
    if isBlank b then (scan .blank [] line).map (word :: ·)
    else if b = 39 then scan .single word line
    else if b = 34 then scan .double word line
    else if acts b then none
    else scan .bare (word ++ [b]) line
  | .single, _, [] => none
  | .single, word, b :: line =>
    if b = 39 then scan .bare word line else scan .single (word ++ [b]) line
  | .double, _, [] => none
  | .double, word, b :: line =>
    if b = 34 then scan .bare word line
    else if actsQuoted b then none
    else scan .double (word ++ [b]) line

def words (line : Text) : Option (List Text) := scan .blank [] line

/-- A character that stands for itself outside quotes. -/
def ordinary (b : UInt8) : Bool := !(isBlank b || b = 39 || b = 34 || acts b)

/-- How a word is written: as it is, or between quotes. -/
inductive Quoted : Text → Text → Prop where
  | bare {b : UInt8} {word : Text} (hfirst : actsFirst b = false)
      (hword : ∀ c ∈ b :: word, ordinary c = true) : Quoted (b :: word) (b :: word)
  | single {word : Text} (hword : 39 ∉ word) : Quoted (39 :: (word ++ [39])) word
  | double {word : Text} (hword : ∀ c ∈ word, c ≠ 34 ∧ actsQuoted c = false) :
      Quoted (34 :: (word ++ [34])) word

theorem scan_ordinary {text : Text} (h : ∀ c ∈ text, ordinary c = true) (word line : Text) :
    scan .bare word (text ++ line) = scan .bare (word ++ text) line := by
  induction text generalizing word with
  | nil => rw [List.nil_append, List.append_nil]
  | cons b text ih =>
    have hb : ordinary b = true := h b List.mem_cons_self
    simp only [ordinary, Bool.not_eq_true', Bool.or_eq_false_iff, decide_eq_false_iff_not] at hb
    obtain ⟨⟨⟨hblank, hsingle⟩, hdouble⟩, hacts⟩ := hb
    rw [List.cons_append, scan, if_neg (by simp [hblank]), if_neg hsingle, if_neg hdouble,
      if_neg (by simp [hacts]), ih fun c hc => h c (List.mem_cons_of_mem b hc), List.append_assoc]
    rfl

theorem scan_single {text : Text} (h : 39 ∉ text) (word line : Text) :
    scan .single word (text ++ 39 :: line) = scan .bare (word ++ text) line := by
  induction text generalizing word with
  | nil => rw [List.nil_append, List.append_nil, scan, if_pos rfl]
  | cons b text ih =>
    have hb : b ≠ 39 := fun heq => h (heq ▸ List.mem_cons_self)
    rw [List.cons_append, scan, if_neg hb, ih fun hmem => h (List.mem_cons_of_mem b hmem),
      List.append_assoc]
    rfl

theorem scan_double {text : Text} (h : ∀ c ∈ text, c ≠ 34 ∧ actsQuoted c = false)
    (word line : Text) :
    scan .double word (text ++ 34 :: line) = scan .bare (word ++ text) line := by
  induction text generalizing word with
  | nil => rw [List.nil_append, List.append_nil, scan, if_pos rfl]
  | cons b text ih =>
    obtain ⟨hquote, hacts⟩ := h b List.mem_cons_self
    rw [List.cons_append, scan, if_neg hquote, if_neg (by simp [hacts]),
      ih fun c hc => h c (List.mem_cons_of_mem b hc), List.append_assoc]
    rfl

/-- What stands behind a word: nothing, or a blank. -/
def Ends (line : Text) : Prop := line = [] ∨ ∃ rest, line = 32 :: rest

theorem scan_ends {line : Text} (h : Ends line) (word : Text) :
    scan .bare word line = (scan .blank [] line).map (word :: ·) := by
  rcases h with rfl | ⟨rest, rfl⟩
  · rfl
  · rfl

/-- A quoted word in front of a line is its first word. -/
theorem Quoted.words_append {text word line : Text} (h : Quoted text word) (hline : Ends line) :
    words (text ++ line) = (words line).map (word :: ·) := by
  unfold words
  rw [← scan_ends hline]
  cases h with
  | @bare b word hfirst hword =>
    have hb : ordinary b = true := hword b List.mem_cons_self
    simp only [ordinary, Bool.not_eq_true', Bool.or_eq_false_iff, decide_eq_false_iff_not] at hb
    obtain ⟨⟨⟨hblank, hsingle⟩, hdouble⟩, hacts⟩ := hb
    rw [List.cons_append, scan, if_neg (by simp [hblank]), if_neg hsingle, if_neg hdouble,
      if_neg (by simp [hacts, hfirst]),
      scan_ordinary fun c hc => hword c (List.mem_cons_of_mem b hc)]
    rfl
  | single hword =>
    rw [List.cons_append, List.append_assoc]
    exact scan_single hword [] line
  | double hword =>
    rw [List.cons_append, List.append_assoc]
    exact scan_double hword [] line

theorem words_blank (line : Text) : words (32 :: line) = words line := rfl

/-- Quoted words, each behind a blank, are read back. -/
theorem words_line {texts ws : List Text} (h : List.Forall₂ Quoted texts ws) :
    words (texts.flatMap (32 :: ·)) = some ws := by
  induction h with
  | nil => rfl
  | @cons text word texts ws hquoted hrest ih =>
    have hends : Ends (texts.flatMap (32 :: ·)) := by
      cases texts with
      | nil => exact .inl rfl
      | cons text texts => exact .inr ⟨_, rfl⟩
    rw [List.flatMap_cons, List.cons_append, words_blank, hquoted.words_append hends, ih]
    rfl

end ShellWords
