import AccessControl.Text.Decimal
import AccessControl.Text.Hex

/-! # Addresses of machines

An address is four octets, written in decimal with dots, or eight groups of sixteen bits,
written in hexadecimal with colons.  In the long form one run of zero groups may be
written as `::`, and the last two groups may be written like a short address.
-/
namespace AccessControl.Net

/-- The address of a machine. -/
inductive Ip where
  | v4 (a b c d : UInt8)
  | v6 (groups : List UInt16)
  deriving DecidableEq, Repr

namespace Ip

/-! ## Reading -/

/-- A decimal number below 256 at the front, without zeros before it. -/
def readOctet? (cs : List Char) : Option (UInt8 × List Char) :=
  let digits := cs.takeWhile Char.isDigit
  let rest := cs.dropWhile Char.isDigit
  let value := digits.foldl (fun n c => n * 10 + (c.toNat - 48)) 0
  if digits.isEmpty || 3 < digits.length || 255 < value then none
  else if digits.length ≠ 1 && digits.head? = some '0' then none
  else some (UInt8.ofNat value, rest)

/-- A hexadecimal number of at most four digits at the front. -/
def readGroup? (cs : List Char) : Option (UInt16 × List Char) :=
  let digits := cs.takeWhile (fun c => (Hex.value? c).isSome)
  let rest := cs.dropWhile (fun c => (Hex.value? c).isSome)
  let value := digits.foldl (fun n c => n * 16 + (Hex.value? c).getD 0) 0
  if digits.isEmpty || 4 < digits.length then none else some (UInt16.ofNat value, rest)

/-- What stands after a given character at the front. -/
def after? (c : Char) : List Char → Option (List Char)
  | [] => none
  | c' :: rest => if c' = c then some rest else none

/-- A short address at the front. -/
def readV4? (cs : List Char) : Option ((UInt8 × UInt8 × UInt8 × UInt8) × List Char) := do
  let (a, cs) ← readOctet? cs
  let (b, cs) ← readOctet? (← after? '.' cs)
  let (c, cs) ← readOctet? (← after? '.' cs)
  let (d, cs) ← readOctet? (← after? '.' cs)
  return ((a, b, c, d), cs)

/-- Two octets as a group. -/
def group (a b : UInt8) : UInt16 := UInt16.ofNat (a.toNat * 256 + b.toNat)

/-- What stands before the group after some others: a colon, except before the first. -/
def beforeGroup? (first : Bool) (cs : List Char) : Option (List Char) :=
  if first then some cs else after? ':' cs

/-- At most `room` groups from the front on, whether they end in a short address, and the
rest.  A short address takes two groups. -/
def readGroups : Nat → Bool → List Char → List UInt16 × Bool × List Char
  | 0, _, cs => ([], false, cs)
  | room + 1, first, cs =>
    let short? := if room = 0 then none else (beforeGroup? first cs).bind readV4?
    match short? with
    | some ((a, b, c, d), rest) => ([group a b, group c d], true, rest)
    | none =>
      match (beforeGroup? first cs).bind readGroup? with
      | none => ([], false, cs)
      | some (g, rest) =>
        let (groups, short, rest) := readGroups room false rest
        (g :: groups, short, rest)

/-- A long address at the front. -/
def readV6? (cs : List Char) : Option (List UInt16 × List Char) :=
  match readGroups 8 true cs with
  | (head, short, rest) =>
    if head.length = 8 then some (head, rest)
    else if short then none
    else do
      let rest ← after? ':' (← after? ':' rest)
      let (tail, _, rest) := readGroups (7 - head.length) true rest
      return (head ++ List.replicate (8 - head.length - tail.length) 0 ++ tail, rest)

/-- Reads an address from a text, which must hold nothing else. -/
def ofText? (s : String) : Option Ip :=
  match readV4? s.toList with
  | some ((a, b, c, d), rest) => if rest.isEmpty then some (.v4 a b c d) else none
  | none =>
    match readV6? s.toList with
    | some (groups, rest) => if rest.isEmpty then some (.v6 groups) else none
    | none => none

/-! ## Printing -/

/-- The printed form of four octets. -/
def v4Text (a b c d : UInt8) : String :=
  ".".intercalate ([a, b, c, d].map (fun x => Decimal.text x.toNat))

/-- The printed form of a group: lower-case hexadecimal without zeros before it. -/
def groupText (g : UInt16) : String := String.ofList (Nat.toDigits 16 g.toNat)

/-- The printed form of groups with colons between. -/
def groupsText (gs : List UInt16) : String := ":".intercalate (gs.map groupText)

/-- Where the first longest run of zero groups begins and how long it is, seen from a
place in the list. -/
def longestRun : Nat → List UInt16 → Nat × Nat
  | _, [] => (0, 0)
  | place, g :: gs =>
    let here := ((g :: gs).takeWhile (· == 0)).length
    let later := longestRun (place + 1) gs
    if later.2 ≤ here then (place, here) else later

/-- The printed form of eight groups. -/
def v6Text (groups : List UInt16) : String :=
  match groups with
  | [0, 0, 0, 0, 0, 0xffff, g, h] =>
    "::ffff:" ++ v4Text (g >>> 8).toUInt8 g.toUInt8 (h >>> 8).toUInt8 h.toUInt8
  | _ =>
    let (start, length) := longestRun 0 groups
    if 1 < length then
      groupsText (groups.take start) ++ "::" ++ groupsText (groups.drop (start + length))
    else groupsText groups

/-- The printed form of an address. -/
def text : Ip → String
  | .v4 a b c d => v4Text a b c d
  | .v6 groups => v6Text groups

/-- The printed form of an address with the number of a service on the machine. -/
def textWith (ip : Ip) (number : Nat) : String :=
  match ip with
  | .v4 _ _ _ _ => ip.text ++ ":" ++ Decimal.text number
  | .v6 _ => "[" ++ ip.text ++ "]:" ++ Decimal.text number

end Ip
end AccessControl.Net
