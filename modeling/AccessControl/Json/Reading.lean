import AccessControl.Data.Binary64
import AccessControl.Text.Decimal
import AccessControl.Text.Hex

/-! # What a text reads as

A text is scanned from left to right for one JSON value.  The result tells all
that a reader of the value may ask: which kind of value it is, which members an
object has and in which order, and where the text stops being JSON (`broken`, and
a list or object that is not `closed`).  A reader that goes through a `Reading`
from left to right therefore meets the first problem of the text first, whether
the text is no JSON there or the value is not the one wanted.

A text may hold symbols that are no characters (`none`), since octets need not be
UTF-8.  They may stand in quoted texts only, and such a text has no value.
-/
namespace AccessControl

/-- What a text reads as, up to where it stops being JSON. -/
inductive Reading where
  | null
  | bool (b : Bool)
  /-- A number written as a whole number, other than `-0`, whose digits fit into sixty-four
  bits. -/
  | int (n : Int)
  /-- Another number, read as a floating-point number; `finite` unless there is none as
  large. -/
  | real (finite : Bool)
  /-- A quoted text; `none` if it stands for no text. -/
  | str (s : Option String)
  /-- A list, as far as its items go; `closed` if its end follows. -/
  | arr (items : List Reading) (closed : Bool)
  /-- An object, as far as its members go; `closed` if its end follows. -/
  | obj (members : List (Option String × Reading)) (closed : Bool)
  /-- Something that starts no value. -/
  | broken

namespace Reading

/-- The symbols of a text to be read: characters, and `none` for what is none. -/
abbrev Source : Type := List (Option Char)

/-- A text as a source. -/
def source (s : String) : Source := s.toList.map some

/-- The rest of a source after the blanks that JSON allows between its parts. -/
def skipBlanks : Source → Source
  | some ' ' :: rest => skipBlanks rest
  | some '\n' :: rest => skipBlanks rest
  | some '\t' :: rest => skipBlanks rest
  | some '\r' :: rest => skipBlanks rest
  | rest => rest

/-! ## Quoted texts -/

/-- A part of a quoted text. -/
inductive Piece where
  /-- A character, written as such or escaped. -/
  | char (c : Char)
  /-- An escaped number that is no character: half of a surrogate pair. -/
  | half (n : Nat)
  /-- A symbol that is no character. -/
  | stray
  deriving DecidableEq, Repr

/-- The number that four hexadecimal digits stand for. -/
def hexNumber? (a b c d : Option Char) : Option Nat := do
  let a ← a.bind Hex.value?
  let b ← b.bind Hex.value?
  let c ← c.bind Hex.value?
  let d ← d.bind Hex.value?
  return ((a * 16 + b) * 16 + c) * 16 + d

/-- The part that an escaped number stands for. -/
def Piece.ofNumber (n : Nat) : Piece :=
  if 0xD800 ≤ n ∧ n ≤ 0xDFFF then .half n else .char (Char.ofNat n)

/-- The character that a backslash and a letter stand for. -/
def unescape? : Char → Option Char
  | '"' => some '"'
  | '\\' => some '\\'
  | '/' => some '/'
  | 'b' => some '\x08'
  | 'f' => some '\x0c'
  | 'n' => some '\n'
  | 'r' => some '\r'
  | 't' => some '\t'
  | _ => none

/-- The parts of a quoted text up to its closing quote, and the source after it. -/
def pieces? : Source → Option (List Piece × Source)
  | [] => none
  | none :: rest => (pieces? rest).map fun (ps, r) => (.stray :: ps, r)
  | some '"' :: rest => some ([], rest)
  | some '\\' :: some 'u' :: a :: b :: c :: d :: rest =>
    match hexNumber? a b c d with
    | some n => (pieces? rest).map fun (ps, r) => (.ofNumber n :: ps, r)
    | none => none
  | some '\\' :: some e :: rest =>
    match unescape? e with
    | some c => (pieces? rest).map fun (ps, r) => (.char c :: ps, r)
    | none => none
  | some c :: rest =>
    if c < ' ' ∨ c = '\\' then none
    else (pieces? rest).map fun (ps, r) => (.char c :: ps, r)

/-- The characters that parts stand for; the halves of a pair must follow each other. -/
def join? : List Piece → Option (List Char)
  | [] => some []
  | .char c :: rest => (join? rest).map (c :: ·)
  | .half h :: .half l :: rest =>
    if h < 0xDC00 ∧ 0xDC00 ≤ l then
      (join? rest).map (Char.ofNat ((h - 0xD800) * 0x400 + (l - 0xDC00) + 0x10000) :: ·)
    else none
  | _ => none

/-- The text that parts stand for. -/
def joinText? (ps : List Piece) : Option String := (join? ps).map String.ofList

/-! ## Numbers -/

/-- The digits that a source begins with, and the source after them. -/
def digits : Source → List Nat × Source
  | some c :: rest =>
    match Decimal.digit? c with
    | some d => let (ds, r) := digits rest; (d :: ds, r)
    | none => ([], some c :: rest)
  | rest => ([], rest)

/-- The number that digits stand for. -/
def value (ds : List Nat) : Nat := ds.foldl (fun n d => n * 10 + d) 0

/-- The largest number of sixty-four bits. -/
def maxWord : Nat := 18446744073709551615

/-- Appends digits to a number as long as it fits into sixty-four bits; the number, and the
digits that no longer do. -/
def append : Nat → List Nat → Nat × List Nat
  | m, [] => (m, [])
  | m, d :: ds => if m * 10 + d ≤ maxWord then append (m * 10 + d) ds else (m, d :: ds)

/-- Whether `m · 10 ^ e` can be read as a floating-point number.  The two factors are rounded
before they are multiplied, so that a number just below the limit may be taken for one
above it, and the other way round. -/
def isFinite (m : Nat) (e : Int) : Bool :=
  if m = 0 ∨ e < 0 then true
  else if 308 < e then false
  else Binary64.isProductFinite m (Nat.pow 10 e.toNat)

/-- The digits after a decimal point, if there is one; `none` if no digit follows it. -/
def fraction? : Source → Option (Option (List Nat) × Source)
  | some '.' :: rest =>
    match digits rest with
    | ([], _) => none
    | (ds, r) => some (some ds, r)
  | rest => some (none, rest)

/-- The exponent after an `e`, if there is one; `none` if no digit follows it. -/
def exponent? : Source → Option (Option Int × Source)
  | some c :: rest =>
    if c = 'e' ∨ c = 'E' then
      let (negative, rest) := match rest with
        | some '+' :: r => (false, r)
        | some '-' :: r => (true, r)
        | r => (false, r)
      match digits rest with
      | ([], _) => none
      | (ds, r) => some (some (if negative then -(value ds : Int) else value ds), r)
    else some (none, some c :: rest)
  | rest => some (none, rest)

/-- Whole digits: a zero alone, or digits that do not begin with a zero. -/
def whole? (s : Source) : Option (List Nat × Source) :=
  match digits s with
  | ([], _) => none
  | (0 :: _ :: _, _) => none
  | (ds, r) => some (ds, r)

/-- The number after an optional minus sign, and the source after it.  Digits that no longer
fit into sixty-four bits only count as powers of ten. -/
def number (negative : Bool) (s : Source) : Reading × Option Source :=
  let read : Option (Reading × Source) := do
    let (ds, r) ← whole? s
    let (fraction, r) ← fraction? r
    let (exponent, r) ← exponent? r
    let (m, left) := append 0 ds
    match fraction, exponent, left with
    | none, none, [] =>
      if negative && m == 0 then return (.real true, r)
      else return (.int (if negative then -(m : Int) else m), r)
    | _, _, _ =>
      let tail := fraction.getD []
      let (m, tailLeft) := append m tail
      let places : Int := tail.length - tailLeft.length
      return (.real (isFinite m (left.length - places + exponent.getD 0)), r)
  match read with
  | some (v, r) => (v, some r)
  | none => (.broken, none)

/-! ## Values -/

/-- The source after a word, if it begins with it. -/
def after? : List Char → Source → Option Source
  | [], s => some s
  | c :: cs, some c' :: rest => if c = c' then after? cs rest else none
  | _ :: _, _ => none

/-- A value that is one word. -/
def word (v : Reading) (w : List Char) (s : Source) : Reading × Option Source :=
  match after? w s with
  | some r => (v, some r)
  | none => (.broken, none)

mutual

/-- The value that a source begins with after blanks, and the source after it unless
the text is broken. -/
def scanValue : Nat → Source → Reading × Option Source
  | 0, _ => (.broken, none)
  | fuel + 1, s =>
    match skipBlanks s with
    | some 'n' :: r => word .null ['u', 'l', 'l'] r
    | some 't' :: r => word (.bool true) ['r', 'u', 'e'] r
    | some 'f' :: r => word (.bool false) ['a', 'l', 's', 'e'] r
    | some '"' :: r =>
      match pieces? r with
      | some (ps, r') => (.str (joinText? ps), some r')
      | none => (.broken, none)
    | some '[' :: r =>
      match skipBlanks r with
      | some ']' :: r' => (.arr [] true, some r')
      | r' => let (items, rest) := scanItems fuel r'; (.arr items rest.isSome, rest)
    | some '{' :: r =>
      match skipBlanks r with
      | some '}' :: r' => (.obj [] true, some r')
      | r' => let (members, rest) := scanMembers fuel r'; (.obj members rest.isSome, rest)
    | some '-' :: r => number true r
    | some c :: r => if c.isDigit then number false (some c :: r) else (.broken, none)
    | _ => (.broken, none)
termination_by structural fuel => fuel

/-- The items of a list from the next one on, and the source after the list. -/
def scanItems : Nat → Source → List Reading × Option Source
  | 0, _ => ([], none)
  | fuel + 1, s =>
    match scanValue fuel s with
    | (v, none) => ([v], none)
    | (v, some r) =>
      match skipBlanks r with
      | some ']' :: r' => ([v], some r')
      | some ',' :: r' =>
        match skipBlanks r' with
        | some ']' :: _ => ([v], none)
        | r'' => let (items, rest) := scanItems fuel r''; (v :: items, rest)
      | _ => ([v], none)
termination_by structural fuel => fuel

/-- The members of an object from the next one on, and the source after the object. -/
def scanMembers : Nat → Source → List (Option String × Reading) × Option Source
  | 0, _ => ([], none)
  | fuel + 1, s =>
    match skipBlanks s with
    | some '"' :: r =>
      match pieces? r with
      | none => ([], none)
      | some (ps, r) =>
        let key := joinText? ps
        match skipBlanks r with
        | some ':' :: r =>
          match scanValue fuel r with
          | (v, none) => ([(key, v)], none)
          | (v, some r) =>
            match skipBlanks r with
            | some '}' :: r' => ([(key, v)], some r')
            | some ',' :: r' =>
              let (members, rest) := scanMembers fuel r'
              ((key, v) :: members, rest)
            | _ => ([(key, v)], none)
        | _ => ([(key, .broken)], none)
    | _ => ([], none)
termination_by structural fuel => fuel

end

/-- What a source reads as, and whether nothing but blanks follows the value. -/
def ofSource (s : Source) : Reading × Bool :=
  match scanValue (s.length + 1) s with
  | (v, some rest) => (v, (skipBlanks rest).isEmpty)
  | (v, none) => (v, false)

/-- Whether a value may be passed over: it is JSON to its end.  The texts in it need
stand for nothing. -/
def isWhole : Reading → Bool
  | .broken => false
  | .arr _ closed => closed
  | .obj _ closed => closed
  | _ => true

mutual

/-- Whether all of a value can be kept: every text in it stands for something, every number
is finite, and no more than `room` lists and objects are nested in each other. -/
def isSound (room : Nat) : Reading → Bool
  | .real finite => finite
  | .str s => s.isSome
  | .arr items closed => room ≠ 0 && closed && areItemsSound (room - 1) items
  | .obj members closed => room ≠ 0 && closed && areMembersSound (room - 1) members
  | .broken => false
  | .null => true
  | .bool _ => true
  | .int _ => true
termination_by structural v => v

/-- Whether all of each item can be kept. -/
def areItemsSound (room : Nat) : List Reading → Bool
  | [] => true
  | v :: vs => v.isSound room && areItemsSound room vs
termination_by structural vs => vs

/-- Whether all of a member can be kept. -/
def isMemberSound (room : Nat) : Option String × Reading → Bool
  | (key, v) => key.isSome && v.isSound room
termination_by structural m => m

/-- Whether all of each member can be kept. -/
def areMembersSound (room : Nat) : List (Option String × Reading) → Bool
  | [] => true
  | m :: ms => isMemberSound room m && areMembersSound room ms
termination_by structural ms => ms

end

end Reading
end AccessControl
