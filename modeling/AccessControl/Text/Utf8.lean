/-! # UTF-8

Characters are written as one to four octets.  Octets are read back one
character at a time; an octet that starts no character is kept in its place as
`none`, so that a reader may still decide what to do with the text around it.
-/
namespace AccessControl.Utf8

/-- The octets of a text. -/
def encode (cs : List Char) : List UInt8 := cs.flatMap String.utf8EncodeChar

/-- The six bits that an octet adds to a character begun before it. -/
def tail? (b : UInt8) : Option Nat :=
  if 0x80 ≤ b ∧ b ≤ 0xBF then some (b.toNat - 0x80) else none

/-- The character with a number, if it needs more than the numbers below `low`. -/
def char? (low n : Nat) : Option Char :=
  if h : low ≤ n ∧ n.isValidChar then some (Char.ofNatAux n h.2) else none

/-- The character that octets begin with, and the octets after it. -/
def next? : List UInt8 → Option (Char × List UInt8)
  | [] => none
  | a :: rest =>
    if a < 0x80 then (char? 0 a.toNat).map (·, rest)
    else if 0xC0 ≤ a ∧ a ≤ 0xDF then
      match rest with
      | b :: rest => do
        let b ← tail? b
        let c ← char? 0x80 ((a.toNat - 0xC0) * 64 + b)
        return (c, rest)
      | _ => none
    else if 0xE0 ≤ a ∧ a ≤ 0xEF then
      match rest with
      | b :: c :: rest => do
        let b ← tail? b
        let c ← tail? c
        let c ← char? 0x800 (((a.toNat - 0xE0) * 64 + b) * 64 + c)
        return (c, rest)
      | _ => none
    else if 0xF0 ≤ a ∧ a ≤ 0xF7 then
      match rest with
      | b :: c :: d :: rest => do
        let b ← tail? b
        let c ← tail? c
        let d ← tail? d
        let c ← char? 0x10000 ((((a.toNat - 0xF0) * 64 + b) * 64 + c) * 64 + d)
        return (c, rest)
      | _ => none
    else none

/-- Reads at most `fuel` characters and stray octets. -/
def symbolsUpTo : Nat → List UInt8 → List (Option Char)
  | 0, _ => []
  | _, [] => []
  | fuel + 1, a :: rest =>
    match next? (a :: rest) with
    | some (c, rest') => some c :: symbolsUpTo fuel rest'
    | none => none :: symbolsUpTo fuel rest

/-- What octets read as: characters, with `none` for each octet of no character. -/
def symbols (octets : List UInt8) : List (Option Char) := symbolsUpTo octets.length octets

/-- The text that octets are, if every octet belongs to a character. -/
def decode? (octets : List UInt8) : Option (List Char) := (symbols octets).mapM id

end AccessControl.Utf8
