import AccessControl.Http.Message
import AccessControl.Text.Pieces

/-! # Routes

A path leads to one route or to none, whatever the method; each route has one method.
Every route but two is protected: a request must bring an access token.  The parts of a
path that stand for numbers or names are kept as they are written.
-/
namespace AccessControl.Http

/-- Where a path leads. -/
inductive Route where
  | health
  | refresh
  | signOut
  | signOutEverywhere
  | catalog
  | myPermissions
  | myPermission (name : String)
  | rolePermissions (role : String)
  | userPermissions (user : String)
  | userRoles (user : String)
  | forceSignOut (user : String)
  deriving DecidableEq, Repr

namespace Route

/-- The route of the parts of a path. -/
def ofParts? : List String → Option Route
  | ["", "health"] => some .health
  | ["", "api", "auth", "refresh"] => some .refresh
  | ["", "api", "auth", "sign-out"] => some .signOut
  | ["", "api", "auth", "sign-out-everywhere"] => some .signOutEverywhere
  | ["", "api", "permissions"] => some .catalog
  | ["", "api", "me", "permissions"] => some .myPermissions
  | ["", "api", "me", "permissions", name] =>
    if name.isEmpty then none else some (.myPermission name)
  | ["", "api", "roles", role, "permissions"] => some (.rolePermissions role)
  | ["", "api", "users", user, "permissions"] => some (.userPermissions user)
  | ["", "api", "users", user, "roles"] => some (.userRoles user)
  | ["", "api", "users", user, "sign-out"] => some (.forceSignOut user)
  | _ => none

/-- The route of a path. -/
def ofPath? (path : String) : Option Route :=
  ofParts? ((pieces '/' path.toList).map String.ofList)

/-- The method of a route. -/
def method : Route → Method
  | .health => .get
  | .refresh => .post
  | .signOut => .post
  | .signOutEverywhere => .post
  | .catalog => .get
  | .myPermissions => .get
  | .myPermission _ => .get
  | .rolePermissions _ => .put
  | .userPermissions _ => .put
  | .userRoles _ => .put
  | .forceSignOut _ => .post

/-- Whether a route is served for a method; what is read is also read without its body. -/
def accepts (route : Route) (method : Method) : Bool :=
  method == route.method || (method == .head && route.method == .get)

/-- Whether a request must bring an access token. -/
def isProtected : Route → Bool
  | .health => false
  | .refresh => false
  | _ => true

end Route
end AccessControl.Http
