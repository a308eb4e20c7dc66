import AccessControl.Administration.Users
import AccessControl.Http.Payload
import AccessControl.Http.Route
import AccessControl.Session.Revoke
import AccessControl.Session.Validate
import AccessControl.Text.Percent

/-! # Endpoints

What is done for a request once its route and, on protected routes, its user are known.
Parts of the path are read before the body, and the body before anything is done.
-/
namespace AccessControl.Http

/-- A program that serves a request. -/
abbrev Endpoint : Type := Program Backend Response

/-- Serves a request by a service whose result is told as `present` says. -/
def answering {α : Type} (present : α → Response) (service : Service α) : Endpoint := do
  match ← (service.run : Program Backend (Except Failure α)) with
  | .ok a => return present a
  | .error failure => return failureResponse failure

/-- Serves a request by a service without a result. -/
def doing {α : Type} (service : Service α) : Endpoint := answering (fun _ => .noContent) service

/-- A part of a path as a text. -/
def pathText (part : String) : Except Response String :=
  match Percent.decode? part with
  | some s => .ok s
  | none => .error (.plain 400)

/-- A part of a path as a number. -/
def pathNumber (part : String) : Except Response Int64 := do
  match Decimal.read .signed64 (← pathText part).toList with
  | .ok n => return Int64.ofInt n
  | .error _ => throw (.plain 400)

/-- An endpoint, or the response that comes before it. -/
def settle : Except Response Endpoint → Endpoint
  | .ok endpoint => endpoint
  | .error response => return response

variable (d : Deployment)

/-- Serves a route that needs no token. -/
def openEndpoint (r : Request) : Route → Endpoint
  | .health => return .ok healthJson
  | .refresh => settle do
    let token ← r.payload readRefreshToken
    return answering (fun issued => .ok (issuedJson issued))
      (Session.refreshAccess d (trim token))
  | _ => return .plain 404

/-- Serves a protected route for the user of a valid token. -/
def protectedEndpoint (r : Request) (token : Token.Validated) : Route → Endpoint
  | .signOut => doing (Session.revoke token.userId token.claims)
  | .signOutEverywhere => doing (Session.rotateStamp token.userId)
  | .catalog => return .ok (definitionsJson d.catalog.definitions)
  | .myPermissions =>
    answering (fun definitions => .ok (definitionsJson definitions))
      (Authorization.listGranted d token.userId)
  | .myPermission part => settle do
    let name ← pathText part
    return answering (fun isGranted => .ok (decisionJson name isGranted))
      (Authorization.hasPermission d token.userId name)
  | .rolePermissions part => settle do
    let role ← pathNumber part
    let granted ← r.payload readGrantedPermissions
    return doing (Administration.setRolePermissions d token.userId ⟨role⟩ granted)
  | .userPermissions part => settle do
    let user ← pathNumber part
    let changes ← r.payload readChanges
    return doing (Administration.setUserPermissions d token.userId ⟨user⟩ changes)
  | .userRoles part => settle do
    let user ← pathNumber part
    let roles ← r.payload readRoles
    return doing (Administration.setUserRoles d token.userId ⟨user⟩ roles)
  | .forceSignOut part => settle do
    let user ← pathNumber part
    return doing do
      Authorization.requirePermission d token.userId Permission.unlockUsers
      Session.rotateStamp ⟨user⟩
  | .health => return .plain 404
  | .refresh => return .plain 404

end AccessControl.Http
