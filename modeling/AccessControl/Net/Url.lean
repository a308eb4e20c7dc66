import AccessControl.Net.Ip
import AccessControl.Text.Percent
import AccessControl.Text.Pieces

/-! # Addresses of resources

A URL is a scheme, possibly a machine with a user in front and a number after it, a path and
possibly a query.  The rules here are those for schemes without rules of their own: a machine
may be missing, its name may hold nearly every character, and case counts.

Reading a URL resolves its path: `.` stands for nothing and `..` takes the segment before it
away.  It does not decode anything, so that users and queries are kept as they are written.
-/
namespace AccessControl.Net

/-- A machine, as a URL names it. -/
inductive Host where
  /-- A name, or whatever else stands outside brackets. -/
  | name (s : String)
  /-- A long address, which stands in brackets. -/
  | v6 (groups : List UInt16)
  deriving DecidableEq, Repr

/-- A URL. -/
structure Url where
  /-- The scheme, in lower case. -/
  scheme : String
  /-- The name of the user; empty if there is none. -/
  user : String
  /-- The password of the user; empty if there is none. -/
  password : String
  /-- The machine; none if it is missing or empty. -/
  host : Option Host
  /-- The path.  It begins with a slash if it can have segments at all. -/
  path : String
  /-- What stands after the question mark; empty if there is none. -/
  query : String
  deriving DecidableEq, Repr

namespace Url

/-! ## The text -/

/-- Whether a character is dropped at the ends of a URL. -/
def isEdge (c : Char) : Bool := c ≤ ' '

/-- The characters of a URL that count. -/
def significant (s : String) : List Char :=
  let inner := ((s.toList.dropWhile isEdge).reverse.dropWhile isEdge).reverse
  inner.filter (fun c => c ≠ '\t' && c ≠ '\n' && c ≠ '\r')

/-- Whether a character may stand in a scheme. -/
def isSchemeChar (c : Char) : Bool := c.isAlphanum || c = '+' || c = '-' || c = '.'

/-- The scheme in lower case, and what stands after its colon. -/
def splitScheme? (cs : List Char) : Option (List Char × List Char) :=
  match cs.span isSchemeChar with
  | (first :: scheme, ':' :: rest) =>
    if first.isAlpha then some ((first :: scheme).map Char.toLower, rest) else none
  | _ => none

/-- Whether a character ends what is said about the machine. -/
def endsAuthority (c : Char) : Bool := c = '/' || c = '?' || c = '#'

/-! ## Machines -/

/-- Whether a character may stand in the name of a machine. -/
def isHostChar (c : Char) : Bool :=
  c ≠ '\x00' && c ≠ ' ' && c ≠ '<' && c ≠ '>' && c ≠ '[' && c ≠ ']' && c ≠ '^' && c ≠ '|' &&
    c ≠ '\\' && c ≠ '@' && c ≠ ':'

/-- The machine up to the colon before its number, and the rest.  A colon in brackets belongs
to the machine. -/
def splitHost : Bool → List Char → List Char × List Char
  | _, [] => ([], [])
  | bracketed, c :: cs =>
    if c = ':' && !bracketed then ([], c :: cs)
    else
      let (host, rest) := splitHost (c = '[' || (bracketed && c ≠ ']')) cs
      (c :: host, rest)

/-- The machine that a text names: `some none` if it names none, and `none` if it cannot. -/
def readHost? (cs : List Char) : Option (Option Host) :=
  match cs with
  | [] => some none
  | '[' :: inside =>
    if inside.getLast? = some ']' then
      match Ip.readV6? inside.dropLast with
      | some (groups, []) => some (some (.v6 groups))
      | _ => none
    else none
  | _ => if cs.all isHostChar then some (some (.name (String.ofList cs))) else none

/-- What stands after the number of a machine, which has a colon in front.  A backslash ends
the number too. -/
def afterNumber? (cs : List Char) : Option (List Char) :=
  match cs with
  | ':' :: cs =>
    let digits := cs.takeWhile Char.isDigit
    let rest := cs.dropWhile Char.isDigit
    let ended := rest.isEmpty || rest.head? = some '\\'
    if ended && digits.foldl (fun n c => n * 10 + (c.toNat - 48)) 0 ≤ 65535 then some rest
    else none
  | rest => some rest

/-- What is said about a machine. -/
structure Authority where
  /-- The name of the user; empty if there is none. -/
  user : List Char
  /-- The password of the user; empty if there is none. -/
  password : List Char
  /-- The machine. -/
  host : Option Host
  /-- What is left, which belongs to the path. -/
  rest : List Char

/-- Reads what is said about a machine; `isLast` if nothing stands after it.  The user, who
ends at the last `@`, needs a machine, and so does a number. -/
def readAuthority? (isLast : Bool) (cs : List Char) : Option Authority := do
  let place := (cs.reverse.takeWhile (· ≠ '@')).reverse
  let login := cs.take (cs.length - place.length - 1)
  let user := login.takeWhile (· ≠ ':')
  let password := (login.dropWhile (· ≠ ':')).drop 1
  let (name, number) := splitHost false place
  let host ← readHost? name
  let rest ← afterNumber? number
  let isNamed := !(user.isEmpty && password.isEmpty)
  let isBare := cs.head? = some '@' && login.isEmpty && place.isEmpty && !isLast
  if host.isNone && (isNamed || isBare || !number.isEmpty) then none
  else return ⟨user, password, host, rest⟩

/-! ## Paths -/

/-- Whether a segment is a dot, possibly percent-encoded. -/
def isDot (segment : List Char) : Bool :=
  let lower := segment.map Char.toLower
  lower == ".".toList || lower == "%2e".toList

/-- Whether a segment is two dots, each possibly percent-encoded. -/
def isDoubleDot (segment : List Char) : Bool :=
  let lower := segment.map Char.toLower
  lower == "..".toList || lower == ".%2e".toList || lower == "%2e.".toList ||
    lower == "%2e%2e".toList

/-- Whether a segment looks like the letter of a drive, which `..` does not take away. -/
def isDrive : List Char → Bool
  | [letter, mark] => letter.isAlpha && (mark = ':' || mark = '|')
  | letter :: mark :: '\\' :: _ => letter.isAlpha && (mark = ':' || mark = '|')
  | _ => false

/-- The segments left when `..` comes after them; the last one comes first. -/
def shorten : List (List Char) → List (List Char)
  | [] => []
  | segment :: before => if isDrive segment then segment :: before else before

/-- Resolves segments after others, of which the last comes first.  Dots in the last place
leave an empty segment there. -/
def resolve : List (List Char) → List (List Char) → List (List Char)
  | before, [] => before.reverse
  | before, [last] =>
    if isDoubleDot last then ([] :: shorten before).reverse
    else if isDot last then ([] :: before).reverse
    else (last :: before).reverse
  | before, segment :: rest =>
    if isDoubleDot segment then resolve (shorten before) rest
    else if isDot segment then resolve before rest
    else resolve (segment :: before) rest

/-- The path of a text that stands after a machine or begins with a slash. -/
def resolvePath (cs : List Char) : List Char :=
  match cs with
  | [] => []
  | '/' :: rest => (resolve [] (pieces '/' rest)).flatMap ('/' :: ·)
  | rest => (resolve [] (pieces '/' rest)).flatMap ('/' :: ·)

/-- What stands before the query and the fragment, and the query. -/
def splitQuery (cs : List Char) : List Char × List Char :=
  match cs.span (fun c => c ≠ '?' && c ≠ '#') with
  | (before, '?' :: rest) => (before, rest.takeWhile (· ≠ '#'))
  | (before, _) => (before, [])

/-! ## Whole URLs -/

/-- Reads a URL. -/
def ofText? (s : String) : Option Url := do
  let (scheme, rest) ← splitScheme? (significant s)
  let make (authority : Authority) (cs : List Char) (path : List Char → List Char) : Url :=
    let (before, query) := splitQuery cs
    { scheme := String.ofList scheme
      user := String.ofList authority.user
      password := String.ofList authority.password
      host := authority.host
      path := String.ofList (path before)
      query := String.ofList query }
  match rest with
  | '/' :: '/' :: rest =>
    let (place, after) := rest.span (fun c => !endsAuthority c)
    let authority ← readAuthority? after.isEmpty place
    return make authority (authority.rest ++ after) resolvePath
  | '/' :: _ => return make ⟨[], [], none, []⟩ rest resolvePath
  | _ => return make ⟨[], [], none, []⟩ rest id

/-! ## Parameters -/

/-- A part of a query as a text: a plus sign stands for a space. -/
def parameterText? (cs : List Char) : Option String :=
  Percent.decode? (String.ofList (cs.map (fun c => if c = '+' then ' ' else c)))

/-- The parameters of a URL: names and values, either `none` if it is no text. -/
def parameters (url : Url) : List (Option String × Option String) :=
  let given := (pieces '&' url.query.toList).filter (fun piece => !piece.isEmpty)
  given.map fun piece =>
    (parameterText? (piece.takeWhile (· ≠ '=')),
     parameterText? ((piece.dropWhile (· ≠ '=')).drop 1))

/-- The last value given for a parameter; `some none` if it is no text. -/
def parameter? (url : Url) (name : String) : Option (Option String) :=
  List.lookup (some name) url.parameters.reverse

end Url
end AccessControl.Net
