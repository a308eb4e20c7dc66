import AccessControl.Text.Decimal

/-! # Values to be written as JSON

A value is written in one way only: without blanks, the members of an object in
their given order, and in texts only what must be escaped is.  What a text reads
back as is another type (`Reading`), since a text need not be JSON at all.
-/
namespace AccessControl

/-- A value that has a written form; numbers are whole. -/
inductive Json where
  | null
  | bool (b : Bool)
  | int (n : Int)
  | str (s : String)
  | arr (items : List Json)
  /-- Named values in the order in which they are written. -/
  | obj (members : List (String × Json))

namespace Json

/-- The lower-case hexadecimal digit of a number below 16. -/
def hexChar (n : Nat) : Char := if n < 10 then Char.ofNat (n + 48) else Char.ofNat (n + 87)

/-- A character inside quotes: quotes, backslashes and the characters below the
space are escaped. -/
def escape (c : Char) : List Char :=
  if c = '"' then ['\\', '"']
  else if c = '\\' then ['\\', '\\']
  else if c = '\n' then ['\\', 'n']
  else if c = '\r' then ['\\', 'r']
  else if c = '\t' then ['\\', 't']
  else if c = '\x08' then ['\\', 'b']
  else if c = '\x0c' then ['\\', 'f']
  else if c < ' ' then
    ['\\', 'u', '0', '0', hexChar (c.toNat / 16), hexChar (c.toNat % 16)]
  else [c]

/-- The inside of a quoted text with its closing quote. -/
def quoteTail : List Char → List Char
  | [] => ['"']
  | c :: cs => escape c ++ quoteTail cs

/-- A quoted text. -/
def quote (s : String) : List Char := '"' :: quoteTail s.toList

mutual

/-- The written form of a value. -/
def chars : Json → List Char
  | .null => ['n', 'u', 'l', 'l']
  | .bool true => ['t', 'r', 'u', 'e']
  | .bool false => ['f', 'a', 'l', 's', 'e']
  | .int n => Decimal.ofInt n
  | .str s => quote s
  | .arr [] => ['[', ']']
  | .arr (v :: vs) => '[' :: (v.chars ++ itemsTail vs)
  | .obj [] => ['{', '}']
  | .obj (m :: ms) => '{' :: (memberChars m ++ membersTail ms)
termination_by structural v => v

/-- The items after the first one, and the end of the list. -/
def itemsTail : List Json → List Char
  | [] => [']']
  | v :: vs => ',' :: (v.chars ++ itemsTail vs)
termination_by structural vs => vs

/-- One member of an object. -/
def memberChars : String × Json → List Char
  | (key, v) => quote key ++ ':' :: v.chars
termination_by structural m => m

/-- The members after the first one, and the end of the object. -/
def membersTail : List (String × Json) → List Char
  | [] => ['}']
  | m :: ms => ',' :: (memberChars m ++ membersTail ms)
termination_by structural ms => ms

end

/-- The written form of a value as a text. -/
def text (v : Json) : String := String.ofList v.chars

end Json
end AccessControl
