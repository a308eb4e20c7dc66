import AccessControl.Permission.Grant
import AccessControl.Program.Basic
import AccessControl.Role
import AccessControl.Token.Issued

/-! # What the services ask of the outside

The services keep nothing themselves.  Every request goes to one of the stores, to the
cache, to the signer of tokens, to the clock or to the source of fresh identifiers; a
request to a store or to the cache may fail.  A service is a program over these requests
that ends in a result or in a `Failure` (`Service`).
-/
namespace AccessControl

/-- A role to be stored. -/
structure NewRole where
  name : String
  displayName : String
  isPrivileged : Bool
  grants : List Grant
  deriving DecidableEq, Repr

/-- A change of a stored role. -/
structure RoleChange where
  name : String
  displayName : String
  isPrivileged : Bool
  /-- The grant rows that replace those stored; without them the stored rows stay. -/
  grants? : Option (List Grant)
  deriving DecidableEq, Repr

namespace Backend

/-- A request to the outside. -/
inductive Request where
  | findRole (role : RoleId)
  | roleGrants (role : RoleId)
  | userGrants (user : UserId)
  | userRoles (user : UserId)
  /-- Stores a role with its grant rows. -/
  | createRole (role : NewRole)
  /-- Changes a role, and its grant rows if new ones are given, in one write. -/
  | updateRole (role : RoleId) (change : RoleChange)
  | replaceRoleGrants (role : RoleId) (grants : List Grant)
  /-- Removes a role with its rows; the answer is the users who had it. -/
  | deleteRole (role : RoleId)
  | replaceUserGrants (user : UserId) (grants : List Grant)
  | replaceUserRoles (user : UserId) (roles : List RoleId)
  /-- Stores the record of an issued token. -/
  | createToken (record : Token.Record)
  /-- Whether there is a record of a token that holds beyond an instant. -/
  | isTokenLive (user : UserId) (key : TokenKey) (now : Instant)
  /-- Removes the record of a token; the answer is whether there was one. -/
  | deleteToken (user : UserId) (key : TokenKey)
  /-- Removes all token records of a user; the answer is their number. -/
  | deleteTokens (user : UserId)
  /-- The stamp of a user. -/
  | findStamp (user : UserId)
  | updateStamp (user : UserId) (stamp : SecurityStamp)
  | cacheGet (key : String)
  | cacheSet (key value : String) (seconds : UInt32)
  | cacheDelete (key : String)
  | sign (claims : Token.Claims)
  /-- Verifies a signed text and gives its claims. -/
  | verify (token : String)
  /-- What time it is. -/
  | now
  /-- An identifier that was never given before. -/
  | fresh

/-- The answers to a request. -/
@[reducible] def Answer : Request → Type
  | .findRole _ => Except Failure (Option Role)
  | .roleGrants _ => Except Failure (List Grant)
  | .userGrants _ => Except Failure (List Grant)
  | .userRoles _ => Except Failure (List RoleId)
  | .createRole _ => Except Failure Role
  | .updateRole _ _ => Except Failure Unit
  | .replaceRoleGrants _ _ => Except Failure Unit
  | .deleteRole _ => Except Failure (List UserId)
  | .replaceUserGrants _ _ => Except Failure Unit
  | .replaceUserRoles _ _ => Except Failure Unit
  | .createToken _ => Except Failure Unit
  | .isTokenLive _ _ _ => Except Failure Bool
  | .deleteToken _ _ => Except Failure Bool
  | .deleteTokens _ => Except Failure Nat
  | .findStamp _ => Except Failure (Option SecurityStamp)
  | .updateStamp _ _ => Except Failure Unit
  | .cacheGet _ => Except Failure (Option String)
  | .cacheSet _ _ _ => Except Failure Unit
  | .cacheDelete _ => Except Failure Unit
  | .sign _ => Except Failure String
  | .verify _ => Except Rejection Token.Claims
  | .now => Instant
  | .fresh => Uuid

end Backend

/-- The requests of the services and their answers. -/
@[reducible] def Backend : Interface := ⟨Backend.Request, Backend.Answer⟩

/-- A program of a service: it ends in a result or in a failure. -/
abbrev Service (α : Type) : Type := ExceptT Failure (Program Backend) α

namespace Backend

/-- The program that makes one request. -/
def request (r : Request) : Program Backend (Answer r) := Program.request (I := Backend) r

/-- The service that makes one request, which may fail. -/
def ask {α : Type} (p : Program Backend (Except Failure α)) : Service α := p

/-- A step that never fails and tells how another step ended. -/
def outcome {α : Type} (s : Service α) : Service (Except Failure α) := ExceptT.lift s.run

/-- Ends as an earlier step did. -/
def conclude {α : Type} (ended : Except Failure α) : Service α := ExceptT.mk (pure ended)

/-- The role with a number. -/
def findRole (role : RoleId) : Service (Option Role) := ask (request (.findRole role))

/-- The grant rows of a role. -/
def roleGrants (role : RoleId) : Service (List Grant) := ask (request (.roleGrants role))

/-- The grant rows of a user alone. -/
def userGrants (user : UserId) : Service (List Grant) := ask (request (.userGrants user))

/-- The roles of a user. -/
def userRoles (user : UserId) : Service (List RoleId) := ask (request (.userRoles user))

/-- Stores a role with its grant rows. -/
def createRole (role : NewRole) : Service Role := ask (request (.createRole role))

/-- Changes a role, and its grant rows if new ones are given. -/
def updateRole (role : RoleId) (change : RoleChange) : Service Unit :=
  ask (request (.updateRole role change))

/-- Replaces the grant rows of a role. -/
def replaceRoleGrants (role : RoleId) (grants : List Grant) : Service Unit :=
  ask (request (.replaceRoleGrants role grants))

/-- Removes a role with its rows; the result is the users who had it. -/
def deleteRole (role : RoleId) : Service (List UserId) := ask (request (.deleteRole role))

/-- Replaces the grant rows of a user. -/
def replaceUserGrants (user : UserId) (grants : List Grant) : Service Unit :=
  ask (request (.replaceUserGrants user grants))

/-- Replaces the roles of a user. -/
def replaceUserRoles (user : UserId) (roles : List RoleId) : Service Unit :=
  ask (request (.replaceUserRoles user roles))

/-- Stores the record of an issued token. -/
def createToken (record : Token.Record) : Service Unit := ask (request (.createToken record))

/-- Whether there is a record of a token that holds beyond an instant. -/
def isTokenLive (user : UserId) (key : TokenKey) (now : Instant) : Service Bool :=
  ask (request (.isTokenLive user key now))

/-- Removes the record of a token; the result is whether there was one. -/
def deleteToken (user : UserId) (key : TokenKey) : Service Bool :=
  ask (request (.deleteToken user key))

/-- Removes all token records of a user; the result is their number. -/
def deleteTokens (user : UserId) : Service Nat := ask (request (.deleteTokens user))

/-- The stamp of a user. -/
def findStamp (user : UserId) : Service (Option SecurityStamp) :=
  ask (request (.findStamp user))

/-- Replaces the stamp of a user. -/
def updateStamp (user : UserId) (stamp : SecurityStamp) : Service Unit :=
  ask (request (.updateStamp user stamp))

/-- Signs claims. -/
def sign (claims : Token.Claims) : Service String := ask (request (.sign claims))

/-- Verifies a signed text and gives its claims. -/
def verify (token : String) : Service Token.Claims :=
  ask (do
    match ← request (.verify token) with
    | .ok claims => return .ok claims
    | .error rejection => return .error (.rejected rejection))

/-- What time it is. -/
def now : Program Backend Instant := request .now

/-- An identifier that was never given before. -/
def fresh : Program Backend Uuid := request .fresh

end Backend
end AccessControl
