import AccessControl.Json.Reading
import Mathlib.Data.List.Forall2

/-! # Which texts are JSON

The grammar of JSON as a relation between what is written and what it reads as.  It says which
symbols a value may be written with, and nothing of how they are scanned: blanks stand around every
value and every name, a character inside quotes stands for itself or is escaped, and a number has
whole digits, a fraction and an exponent.  No list and no object ends with a comma.
-/
namespace AccessControl.Reading

/-! ## Blanks -/

/-- A blank that JSON allows between its parts. -/
def IsBlank (x : Option Char) : Prop :=
  x = some ' ' ∨ x = some '\n' ∨ x = some '\t' ∨ x = some '\r'

instance (x : Option Char) : Decidable (IsBlank x) := inferInstanceAs (Decidable (_ ∨ _ ∨ _ ∨ _))

/-- Any number of blanks. -/
def Blanks (s : Source) : Prop := ∀ x ∈ s, IsBlank x

theorem Blanks.nil : Blanks [] := List.forall_mem_nil _

/-! ## Quoted texts -/

/-- How a part of a quoted text is written. -/
inductive Piece.Written : Piece → Source → Prop where
  | plain {c : Char} (hlow : ¬c < ' ') (hquote : c ≠ '"') (hslash : c ≠ '\\') :
    Written (.char c) [some c]
  | escaped {e c : Char} (h : unescape? e = some c) : Written (.char c) [some '\\', some e]
  | numbered {a b c d : Option Char} {n : Nat} (h : hexNumber? a b c d = some n) :
    Written (.ofNumber n) [some '\\', some 'u', a, b, c, d]
  | stray : Written .stray [none]

/-- The parts of a quoted text, and the quote that closes it. -/
inductive Quoted : List Piece → Source → Prop where
  | close : Quoted [] [some '"']
  | part {p : Piece} {ps : List Piece} {s rest : Source} (h : p.Written s)
    (hrest : Quoted ps rest) : Quoted (p :: ps) (s ++ rest)

/-! ## Numbers -/

/-- Digits are written as one character each. -/
def Digits (ds : List Nat) (s : Source) : Prop :=
  List.Forall₂ (fun d x => x.bind Decimal.digit? = some d) ds s

/-- Whole digits do not begin with a zero, unless it stands alone. -/
def IsWhole (ds : List Nat) : Prop := ds ≠ [] ∧ ∀ d rest, ds ≠ 0 :: d :: rest

/-- How a fraction is written, if there is one. -/
inductive Fraction : Option (List Nat) → Source → Prop where
  | absent : Fraction none []
  | present {ds : List Nat} {s : Source} (h : Digits ds s) (hne : ds ≠ []) :
    Fraction (some ds) (some '.' :: s)

/-- The sign of an exponent. -/
inductive Sign : Bool → Source → Prop where
  | none : Sign false []
  | plus : Sign false [some '+']
  | minus : Sign true [some '-']

/-- How an exponent is written, if there is one. -/
inductive Exponent : Option Int → Source → Prop where
  | absent : Exponent none []
  | present {e : Char} {negative : Bool} {sign s : Source} {ds : List Nat} (he : e = 'e' ∨ e = 'E')
    (hsign : Sign negative sign) (h : Digits ds s) (hne : ds ≠ []) :
    Exponent (some (if negative then -(value ds : Int) else value ds))
      (some e :: (sign ++ s))

/-- The parts of a number. -/
structure Numeral where
  negative : Bool
  whole : List Nat
  fraction : Option (List Nat)
  exponent : Option Int

namespace Numeral

/-- A number is taken for a whole one if it is written so, other than `-0`, and its digits fit into
sixty-four bits. -/
def IsInt (n : Numeral) : Prop :=
  n.fraction = none ∧ n.exponent = none ∧ value n.whole ≤ maxWord ∧
    (n.negative = true → 0 < value n.whole)

instance (n : Numeral) : Decidable n.IsInt := inferInstanceAs (Decidable (_ ∧ _ ∧ _ ∧ _))

/-- Whether there is a floating-point number as large.  Digits that no longer fit into sixty-four
bits count as powers of ten. -/
def isFinite (n : Numeral) : Bool :=
  let tail := n.fraction.getD []
  let (m, left) := append 0 n.whole
  let (m, tailLeft) := append m tail
  Reading.isFinite m (left.length - (tail.length - tailLeft.length) + n.exponent.getD 0)

/-- What a number reads as. -/
def reading (n : Numeral) : Reading :=
  if n.IsInt then .int (if n.negative then -(value n.whole : Int) else value n.whole)
  else .real n.isFinite

/-- How a number is written after its sign. -/
inductive Unsigned (n : Numeral) : Source → Prop where
  | mk {s f e : Source} (hwhole : IsWhole n.whole) (hdigits : Digits n.whole s)
    (hfraction : Fraction n.fraction f) (hexponent : Exponent n.exponent e) :
    Unsigned n (s ++ (f ++ e))

/-- How a number is written. -/
inductive Written : Numeral → Source → Prop where
  | positive {n : Numeral} {s : Source} (hsign : n.negative = false) (h : n.Unsigned s) :
    Written n s
  | negative {n : Numeral} {s : Source} (hsign : n.negative = true) (h : n.Unsigned s) :
    Written n (some '-' :: s)

end Numeral

/-! ## Values -/

/-- What stands between two brackets or braces, with the closing one: nothing, or things with commas
between them. -/
inductive Listed {α : Type} (Written : α → Source → Prop) (close : Char) :
    List α → Source → Prop where
  | nothing {b : Source} (hb : Blanks b) : Listed Written close [] (b ++ [some close])
  | last {a : α} {s : Source} (h : Written a s) : Listed Written close [a] (s ++ [some close])
  | more {a a' : α} {as : List α} {s rest : Source} (h : Written a s)
    (hrest : Listed Written close (a' :: as) rest) :
    Listed Written close (a :: a' :: as) (s ++ some ',' :: rest)

/-- The name of a member, between blanks. -/
inductive Named : Option String → Source → Prop where
  | mk {ps : List Piece} {b s b' : Source} (hb : Blanks b) (h : Quoted ps s) (hb' : Blanks b') :
    Named (joinText? ps) (b ++ some '"' :: (s ++ b'))

mutual

/-- **How a value is written.** -/
inductive Written : Reading → Source → Prop where
  | null : Written .null [some 'n', some 'u', some 'l', some 'l']
  | isTrue : Written (.bool true) [some 't', some 'r', some 'u', some 'e']
  | isFalse : Written (.bool false) [some 'f', some 'a', some 'l', some 's', some 'e']
  | number {n : Numeral} {s : Source} (h : n.Written s) : Written n.reading s
  | text {ps : List Piece} {s : Source} (h : Quoted ps s) :
    Written (.str (joinText? ps)) (some '"' :: s)
  | list {vs : List Reading} {s : Source} (h : Listed Spaced ']' vs s) :
    Written (.arr vs true) (some '[' :: s)
  | object {ms : List (Option String × Reading)} {s : Source} (h : Listed Member '}' ms s) :
    Written (.obj ms true) (some '{' :: s)

/-- A value between blanks. -/
inductive Spaced : Reading → Source → Prop where
  | mk {v : Reading} {b s b' : Source} (hb : Blanks b) (h : Written v s) (hb' : Blanks b') :
    Spaced v (b ++ (s ++ b'))

/-- A member of an object: its name, a colon and its value. -/
inductive Member : Option String × Reading → Source → Prop where
  | mk {key : Option String} {v : Reading} {s s' : Source} (hkey : Named key s)
    (h : Spaced v s') : Member (key, v) (s ++ some ':' :: s')

end

/-! ## Blanks before and after -/

variable {b s : Source} {v : Reading}

/-- No blanks need be written around a value. -/
theorem Written.spaced (h : Written v s) : Spaced v s := by
  have hspaced := Spaced.mk .nil h .nil
  rwa [List.nil_append, List.append_nil] at hspaced

end AccessControl.Reading
