/-! # Whole numbers in decimal

A whole number is written as its digits, with `-` in front when it is negative.
Reading is bounded by the range of the number wanted and goes from left to
right: the first character that is no digit, or the first digit that takes the
value out of the range, decides what is reported (`Decimal.Fault`).  One sign may
come first; `-` counts as a sign only where the range has negative numbers.
-/
namespace AccessControl.Decimal

/-- Why a text is not a number of the wanted range. -/
inductive Fault where
  /-- There is nothing to read. -/
  | empty
  /-- A character is no digit, or a sign has no digit after it. -/
  | badDigit
  /-- The number is above the range. -/
  | tooLarge
  /-- The number is below the range. -/
  | tooSmall
  deriving DecidableEq, Repr

/-- The wording of a fault. -/
def Fault.message : Fault → String
  | .empty => "cannot parse integer from empty string"
  | .badDigit => "invalid digit found in string"
  | .tooLarge => "number too large to fit in target type"
  | .tooSmall => "number too small to fit in target type"

/-- The numbers wanted: from `low` to `high`, both included. -/
structure Bounds where
  low : Int
  high : Int
  deriving DecidableEq, Repr

/-- The numbers of a signed word of sixty-four bits. -/
def Bounds.signed64 : Bounds := ⟨-9223372036854775808, 9223372036854775807⟩
/-- The numbers of an unsigned word of sixty-four bits. -/
def Bounds.unsigned64 : Bounds := ⟨0, 18446744073709551615⟩
/-- The numbers of an unsigned word of thirty-two bits. -/
def Bounds.unsigned32 : Bounds := ⟨0, 4294967295⟩
/-- The numbers of an unsigned word of sixteen bits. -/
def Bounds.unsigned16 : Bounds := ⟨0, 65535⟩

/-- The value of a decimal digit. -/
def digit? (c : Char) : Option Nat :=
  if '0' ≤ c ∧ c ≤ '9' then some (c.toNat - '0'.toNat) else none

/-- Reads digits after a value; each digit is added when `up`, else subtracted. -/
def readDigits (bounds : Bounds) (up : Bool) : Int → List Char → Except Fault Int
  | value, [] => .ok value
  | value, c :: cs =>
    match digit? c with
    | none => .error .badDigit
    | some d =>
      let value' := if up then value * 10 + d else value * 10 - d
      if bounds.high < value' then .error .tooLarge
      else if value' < bounds.low then .error .tooSmall
      else readDigits bounds up value' cs

/-- Reads a number of the range from all the characters given. -/
def read (bounds : Bounds) : List Char → Except Fault Int
  | [] => .error .empty
  | ['+'] => .error .badDigit
  | ['-'] => .error .badDigit
  | '+' :: cs => readDigits bounds true 0 cs
  | '-' :: cs =>
    if bounds.low < 0 then readDigits bounds false 0 cs else .error .badDigit
  | cs => readDigits bounds true 0 cs

/-- The digits of a number that is not negative. -/
def ofNat (n : Nat) : List Char := Nat.toDigits 10 n

/-- The decimal form of a whole number. -/
def ofInt (n : Int) : List Char :=
  if n < 0 then '-' :: ofNat n.natAbs else ofNat n.natAbs

/-- The decimal form of a whole number as a text. -/
def text (n : Int) : String := String.ofList (ofInt n)

end AccessControl.Decimal
