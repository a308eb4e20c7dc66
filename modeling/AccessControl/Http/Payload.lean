import AccessControl.Http.Media
import AccessControl.Json.Record
import AccessControl.Permission.Definition
import AccessControl.Permission.Grant
import AccessControl.Token.Issued

/-! # What messages carry

Bodies of requests are read as records of a known form; a body that is not announced as
JSON, is no JSON or has another form is refused with a status of its own.  A failure is
told to the client by its status and its wording, except that the wording of an internal
failure is kept back.
-/
namespace AccessControl.Http

/-- The status of a failure. -/
def statusOf : Failure → Nat
  | .validation _ => 400
  | .notFound _ => 404
  | .conflict _ => 409
  | .unauthorized _ => 401
  | .rejected _ => 401
  | .forbidden _ => 403
  | .internal _ => 500

/-- What a client is told of a failure. -/
def publicMessage : Failure → String
  | .internal _ => "internal server error"
  | failure => failure.message

/-- The body for a failure. -/
def failureBody (failure : Failure) : Json := .obj [("message", .str (publicMessage failure))]

/-- The response for a failure. -/
def failureResponse (failure : Failure) : Response :=
  .json (statusOf failure) (failureBody failure)

/-- The status of a body that cannot be read. -/
def statusOfFault : Json.Fault → Nat
  | .malformed => 400
  | .mismatched => 422

/-- The body of a request as a value of the form that a route needs. -/
def Request.payload {α : Type} (r : Request) (read : Json.Reader α) : Except Response α :=
  if r.announcesJson then
    match Json.ofSource read (Reading.source r.body) with
    | .ok a => .ok a
    | .error fault => .error (.plain (statusOfFault fault))
  else .error (.plain 415)

/-- Reads a refresh token. -/
def readRefreshToken : Json.Reader String := fun v => do
  let found ← Json.readRecord [.required "refresh_token" Json.readString] v
  found.get "refresh_token" Json.readString

/-- Reads the names of permissions. -/
def readGrantedPermissions : Json.Reader (List String) := fun v => do
  let names : Json.Reader (List String) := Json.readList Json.readString
  let found ← Json.readRecord [.required "granted_permissions" names] v
  found.get "granted_permissions" names

/-- Reads one change of what is given to a user. -/
def readChange : Json.Reader Grant := fun v => do
  let found ← Json.readRecord
    [.required "name" Json.readString, .required "is_granted" Json.readBool] v
  return ⟨← found.get "name" Json.readString, ← found.get "is_granted" Json.readBool⟩

/-- Reads changes of what is given to a user. -/
def readChanges : Json.Reader (List Grant) := fun v => do
  let changes : Json.Reader (List Grant) := Json.readList readChange
  let found ← Json.readRecord [.required "grants" changes] v
  found.get "grants" changes

/-- Reads the numbers of roles. -/
def readRoles : Json.Reader (List RoleId) := fun v => do
  let roles : Json.Reader (List RoleId) := Json.readList Json.Form.read
  let found ← Json.readRecord [.required "role_ids" roles] v
  found.get "role_ids" roles

/-- The written form of an issued token; its key is kept back. -/
def issuedJson (issued : Token.Issued) : Json :=
  .obj [("access_token", .str issued.text), ("token_type", .str "Bearer"),
    ("expires_in_seconds", .int issued.lifetime)]

/-- The written form of permissions. -/
def definitionsJson (definitions : List PermissionDefinition) : Json :=
  .arr (definitions.map Json.Form.toJson)

/-- The written form of the answer to a question about one permission. -/
def decisionJson (name : String) (isGranted : Bool) : Json :=
  .obj [("name", .str name), ("is_granted", .bool isGranted)]

/-- The written form of the answer that the service is there. -/
def healthJson : Json := .obj [("status", .str "ok")]

end AccessControl.Http
