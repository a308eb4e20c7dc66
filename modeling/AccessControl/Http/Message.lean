import AccessControl.Json.Basic
import AccessControl.Text.Blank

/-! # Messages

A request has a method, a target, headers and a body; a response has a status, headers
and possibly a JSON body.  Header names do not distinguish case, and of several headers of
one name the first counts.
-/
namespace AccessControl.Http

/-- A method of a request. -/
inductive Method where
  | get
  | head
  | post
  | put
  | options
  | other (name : String)
  deriving DecidableEq, Repr

/-- The method of a name. -/
def Method.ofName (s : String) : Method :=
  match s with
  | "GET" => .get
  | "HEAD" => .head
  | "POST" => .post
  | "PUT" => .put
  | "OPTIONS" => .options
  | name => .other name

/-- Named header values in their order. -/
abbrev Headers : Type := List (String × String)

/-- The first value of a header. -/
def Headers.get? (headers : Headers) (name : String) : Option String :=
  (headers.find? (fun header => sameIgnoringCase header.1 name)).map Prod.snd

/-- A request. -/
structure Request where
  method : Method
  /-- The path, possibly with a machine in front and a query after it. -/
  target : String
  headers : Headers
  /-- The body; empty if there is none. -/
  body : String
  deriving DecidableEq

/-- What stands before the query. -/
def beforeQuery (cs : List Char) : List Char := cs.takeWhile (fun c => c ≠ '?' ∧ c ≠ '#')

/-- Whether a character may stand in the scheme of a target. -/
def isSchemeChar (c : Char) : Bool :=
  c.isAlphanum || c = '+' || c = '-' || c = '.' || c = '~'

/-- What stands after the scheme and the machine of a target, if it begins with them. -/
def afterMachine? (target : List Char) : Option (List Char) :=
  match target.dropWhile isSchemeChar with
  | ':' :: '/' :: '/' :: rest => some (rest.dropWhile (fun c => c ≠ '/' ∧ c ≠ '?' ∧ c ≠ '#'))
  | _ => none

/-- The path of a request without its query.  A target may name a machine in front of the
path, and then the path may be missing. -/
def Request.path (r : Request) : String :=
  let target := r.target.toList
  match afterMachine? target with
  | none => String.ofList (beforeQuery target)
  | some rest => if (beforeQuery rest).isEmpty then "/" else String.ofList (beforeQuery rest)

/-- A response. -/
structure Response where
  status : Nat
  /-- The headers that say who may use the response. -/
  headers : Headers
  /-- The JSON body; other bodies are not told apart. -/
  body : Option Json

namespace Response

/-- A response without a JSON body. -/
def plain (status : Nat) : Response := ⟨status, [], none⟩

/-- A response with a JSON body. -/
def json (status : Nat) (body : Json) : Response := ⟨status, [], some body⟩

/-- A success with a JSON body. -/
def ok (body : Json) : Response := json 200 body

/-- A success without a body. -/
def noContent : Response := plain 204

/-- The response without its body. -/
def withoutBody (r : Response) : Response := { r with body := none }

end Response

/-- Whether a character may stand in a header value that is read as a text. -/
def isVisible (c : Char) : Bool := (' ' ≤ c && c ≤ '~') || c == '\t'

/-- The header value as a text, if all of it can be read as one. -/
def visible? (value : String) : Option String :=
  if value.toList.all isVisible then some value else none

/-- Whether a text may be a header value: it has no control character but the tab. -/
def isHeaderValue (value : String) : Bool :=
  value.toList.all (fun c => (' ' ≤ c && c ≠ '\x7f') || c == '\t')

end AccessControl.Http
