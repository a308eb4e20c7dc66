/-! # Universally unique identifiers

A UUID is thirty-two hexadecimal digits.  It is printed in lower case, in groups
of 8, 4, 4, 4 and 12 digits with hyphens between.  It is read from that form in
any case, alone, in braces or after `urn:uuid:`, and from the bare digits.
-/
namespace AccessControl

/-- A universally unique identifier. -/
structure Uuid where
  /-- The hexadecimal digits, the highest first. -/
  digits : List (Fin 16)
  /-- There are thirty-two of them. -/
  length_eq : digits.length = 32
  deriving DecidableEq

namespace Uuid

/-- The lower-case character of a hexadecimal digit. -/
def hexChar (d : Fin 16) : Char :=
  if d.val < 10 then Char.ofNat (d.val + 48) else Char.ofNat (d.val + 87)

/-- The hexadecimal digit of a character, in either case. -/
def hexDigit? (c : Char) : Option (Fin 16) :=
  if '0' ≤ c ∧ c ≤ '9' then some (Fin.ofNat 16 (c.toNat - 48))
  else if 'a' ≤ c ∧ c ≤ 'f' then some (Fin.ofNat 16 (c.toNat - 87))
  else if 'A' ≤ c ∧ c ≤ 'F' then some (Fin.ofNat 16 (c.toNat - 55))
  else none

theorem hexDigit?_hexChar (d : Fin 16) : hexDigit? (hexChar d) = some d := by
  revert d
  decide

/-- Joins groups of the given sizes with hyphens; the last group takes the rest. -/
def hyphenate : List Nat → List Char → List Char
  | [], cs => cs
  | n :: sizes, cs => cs.take n ++ '-' :: hyphenate sizes (cs.drop n)

/-- Takes out the hyphens after groups of the given sizes. -/
def unhyphenate? : List Nat → List Char → Option (List Char)
  | [], cs => some cs
  | n :: sizes, cs =>
    match cs.drop n with
    | '-' :: rest => (unhyphenate? sizes rest).map (cs.take n ++ ·)
    | _ => none

/-- The sizes of the groups before a hyphen. -/
def groups : List Nat := [8, 4, 4, 4]

/-- The printed form. -/
def chars (u : Uuid) : List Char := hyphenate groups (u.digits.map hexChar)

/-- The printed form as a text. -/
def text (u : Uuid) : String := String.ofList u.chars

instance : ToString Uuid := ⟨text⟩

/-- Reads exactly thirty-two hexadecimal digits. -/
def ofDigits? (cs : List Char) : Option Uuid := do
  let digits ← cs.mapM hexDigit?
  if h : digits.length = 32 then some ⟨digits, h⟩ else none

/-- Reads the hyphenated form. -/
def ofHyphenated? (cs : List Char) : Option Uuid := (unhyphenate? groups cs).bind ofDigits?

/-- Reads any of the four forms. -/
def ofChars? (cs : List Char) : Option Uuid :=
  if cs.length = 32 then ofDigits? cs
  else if cs.length = 36 then ofHyphenated? cs
  else if cs.length = 38 then
    if cs.head? = some '{' ∧ cs.getLast? = some '}' then ofHyphenated? (cs.tail.dropLast) else none
  else if (cs.take 9).map Char.toLower = "urn:uuid:".toList then ofHyphenated? (cs.drop 9)
  else none

/-- Reads a UUID from a text, which must hold nothing else. -/
def ofText? (s : String) : Option Uuid := ofChars? s.toList

end Uuid
end AccessControl
