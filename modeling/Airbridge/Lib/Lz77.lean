import Mathlib.Data.List.Basic

/-!
# LZ77 expansion

The meaning of a stream of LZ77 tokens over any alphabet.  A token either
appends symbols of its own or copies symbols from a distance back in what was
produced so far, one symbol at a time, so that a copy longer than its distance
repeats the last `dist` symbols.

`expand` runs a token list, `ValidFrom` says that every distance reaches back
inside the output, and `copyBack_take` is what an encoder needs: a copy whose
symbols were compared with the input extends a prefix of the input.
-/

namespace Lz77

variable {α : Type*} [Inhabited α]

/-- Append `len` symbols, each one copied from `dist` places back. -/
def copyBack (dist : Nat) : Nat → List α → List α
  | 0, out => out
  | len + 1, out => copyBack dist len (out ++ [out.getD (out.length - dist) default])

/-- One step of the expansion. -/
inductive Token (α : Type*) where
  | literal (symbols : List α)
  | copy (len dist : Nat)
deriving Repr, DecidableEq

/-- The output after one token. -/
def Token.apply (out : List α) : Token α → List α
  | literal symbols => out ++ symbols
  | copy len dist => copyBack dist len out

/-- A copy must start inside the output. -/
def Token.Valid (out : List α) : Token α → Prop
  | literal _ => True
  | copy _ dist => 0 < dist ∧ dist ≤ out.length

/-- The output after a list of tokens. -/
def expand (out : List α) (ts : List (Token α)) : List α := ts.foldl Token.apply out

/-- Every token is valid for the output it meets. -/
def ValidFrom (out : List α) : List (Token α) → Prop
  | [] => True
  | t :: ts => t.Valid out ∧ ValidFrom (t.apply out) ts

@[simp] theorem expand_nil (out : List α) : expand out [] = out := rfl

@[simp] theorem expand_cons (out : List α) (t : Token α) (ts : List (Token α)) :
    expand out (t :: ts) = expand (t.apply out) ts := rfl

theorem expand_append (out : List α) (ts us : List (Token α)) :
    expand out (ts ++ us) = expand (expand out ts) us :=
  List.foldl_append

theorem validFrom_append (out : List α) (ts us : List (Token α)) :
    ValidFrom out (ts ++ us) ↔ ValidFrom out ts ∧ ValidFrom (expand out ts) us := by
  induction ts generalizing out with
  | nil => simp [ValidFrom]
  | cons t ts ih => simp [ValidFrom, ih, and_assoc]

/-! ## Copies -/

@[simp] theorem length_copyBack (dist len : Nat) (out : List α) :
    (copyBack dist len out).length = out.length + len := by
  induction len generalizing out with
  | zero => rfl
  | succ len ih =>
    rw [copyBack, ih, List.length_append, List.length_singleton]
    omega

theorem prefix_copyBack (dist len : Nat) (out : List α) : out <+: copyBack dist len out := by
  induction len generalizing out with
  | zero => exact List.prefix_refl _
  | succ len ih => exact (List.prefix_append _ _).trans (ih _)

/-- The output is never taken back. -/
theorem prefix_expand (out : List α) (ts : List (Token α)) : out <+: expand out ts := by
  induction ts generalizing out with
  | nil => exact List.prefix_refl _
  | cons t ts ih =>
    have hstep : out <+: t.apply out := by
      cases t with
      | literal symbols => exact List.prefix_append _ _
      | copy len dist => exact prefix_copyBack dist len out
    exact hstep.trans (ih _)

theorem length_le_expand (out : List α) (ts : List (Token α)) :
    out.length ≤ (expand out ts).length :=
  (prefix_expand out ts).length_le

/-- A copy whose symbols agree with the input extends a prefix of the input. -/
theorem copyBack_take (input : List α) (dist : Nat) (len pos : Nat) (hd : 0 < dist)
    (hpos : dist ≤ pos) (hlen : pos + len ≤ input.length)
    (hsame : ∀ k < len, input.getD (pos - dist + k) default = input.getD (pos + k) default) :
    copyBack dist len (input.take pos) = input.take (pos + len) := by
  induction len generalizing pos with
  | zero => rfl
  | succ len ih =>
    have hlt : pos < input.length := by omega
    have hback : (input.take pos).getD (pos - dist) default = input[pos] := by
      have h0 := hsame 0 (by omega)
      rw [List.getD_eq_getElem?_getD, List.getElem?_take_of_lt (by omega),
        ← List.getD_eq_getElem?_getD]
      simpa [List.getD_eq_getElem?_getD, hlt] using h0
    have hstep : input.take pos ++ [input[pos]] = input.take (pos + 1) :=
      (List.take_append_getElem hlt)
    rw [copyBack, List.length_take_of_le (by omega), hback, hstep,
      ih (pos + 1) (by omega) (by omega) ?_, Nat.add_assoc, Nat.add_comm 1]
    intro k hk
    have := hsame (k + 1) (by omega)
    rwa [show pos + 1 - dist + k = pos - dist + (k + 1) by omega,
      show pos + 1 + k = pos + (k + 1) by omega]

end Lz77
