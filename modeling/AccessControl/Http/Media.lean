import AccessControl.Http.Message

/-! # Media types

A media type is a type, a slash, a subtype and possibly parameters.  A subtype may end in
`+` and a suffix.  Bodies must be announced as JSON, by the subtype or by the suffix; a
media type that is not well formed announces nothing.
-/
namespace AccessControl.Http

/-- Whether a character may stand in a name of a media type. -/
def isTokenChar (c : Char) : Bool :=
  c.isAlphanum || "!#$%&'*+-.^_`|~".toList.contains c

/-- Whether a character may stand in a quoted value. -/
def isQuotable (c : Char) : Bool := ' ' ≤ c && c ≠ '\x7f'

/-- Whether what stands after a quoted value is well formed, up to the next parameter. -/
def afterQuoted? : List Char → Option (List Char)
  | [] => some []
  | ';' :: rest => some rest
  | ' ' :: rest => afterQuoted? rest
  | _ => none

/-- What stands after one parameter.  A quoted value has at least one character, which may
be a quote. -/
def afterParameter? (cs : List Char) : Option (List Char) :=
  match cs.span isTokenChar with
  | ([], _) => none
  | (_, '=' :: '"' :: value) =>
    match value.take 1, (value.drop 1).dropWhile (fun c => isQuotable c && c ≠ '"') with
    | [c], '"' :: rest => if isQuotable c then afterQuoted? rest else none
    | _, _ => none
  | (_, '=' :: value) =>
    match value.span isTokenChar with
    | (_, []) => some []
    | ([], _) => none
    | (_, ';' :: rest) => some rest
    | _ => none
  | _ => none

/-- Whether parameters are well formed; each takes at least one character. -/
def parametersUpTo : Nat → List Char → Bool
  | 0, cs => cs.isEmpty
  | fuel + 1, cs =>
    match cs.dropWhile (· == ' ') with
    | [] => true
    | c :: rest =>
      match afterParameter? (c :: rest) with
      | some rest => parametersUpTo fuel rest
      | none => false

/-- Whether parameters are well formed. -/
def areParameters (cs : List Char) : Bool := parametersUpTo cs.length cs

/-- The subtype without its suffix, and the suffix; a `+` in front starts no suffix. -/
def splitSuffix (subtype : List Char) : List Char × Option (List Char) :=
  match subtype with
  | [] => ([], none)
  | c :: rest =>
    if rest.contains '+' then
      let suffix := (rest.reverse.takeWhile (· ≠ '+')).reverse
      (c :: rest.take (rest.length - suffix.length - 1), some suffix)
    else (c :: rest, none)

/-- Whether a media type announces JSON. -/
def announcesJson (mediaType : String) : Bool :=
  match mediaType.toList.span isTokenChar with
  | (top, '/' :: rest) =>
    let (subtype, parameters) := rest.span isTokenChar
    let wellFormed :=
      match parameters with
      | [] => true
      | ';' :: parameters => !subtype.isEmpty && areParameters parameters
      | _ => false
    let (name, suffix?) := splitSuffix (subtype.map Char.toLower)
    let isJson := name == "json".toList || suffix? == some "json".toList
    wellFormed && top.map Char.toLower == "application".toList && isJson
  | _ => false

/-- Whether the headers of a request announce JSON. -/
def Request.announcesJson (r : Request) : Bool :=
  match (r.headers.get? "content-type").bind visible? with
  | some mediaType => Http.announcesJson mediaType
  | none => false

end AccessControl.Http
