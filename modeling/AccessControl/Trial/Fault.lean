import AccessControl.Program.Backend

/-! # Faults

A fault is put at one point of the outside, which is one kind of request to a store or to
the cache, and changes how such requests are answered from then on.
-/
namespace AccessControl.Trial

/-- A kind of request at which there may be a fault. -/
inductive Point where
  | findRole
  | roleGrants
  | userGrants
  | userRoles
  | createRole
  | updateRole
  | replaceRoleGrants
  | deleteRole
  | replaceUserGrants
  | replaceUserRoles
  | createToken
  | isTokenLive
  | deleteToken
  | deleteTokens
  | findStamp
  | updateStamp
  | cacheGet
  | cacheSet
  | cacheDelete
  deriving DecidableEq, Repr

namespace Point

/-- The name of a point. -/
def name : Point → String
  | .findRole => "find_role"
  | .roleGrants => "list_role_grants"
  | .userGrants => "list_user_grants"
  | .userRoles => "list_user_role_ids"
  | .createRole => "create_role"
  | .updateRole => "update_role"
  | .replaceRoleGrants => "replace_role_grants"
  | .deleteRole => "delete_role"
  | .replaceUserGrants => "replace_user_grants"
  | .replaceUserRoles => "replace_user_roles"
  | .createToken => "create_token"
  | .isTokenLive => "is_token_live"
  | .deleteToken => "delete_token"
  | .deleteTokens => "delete_tokens_for_user"
  | .findStamp => "find_security_stamp"
  | .updateStamp => "update_security_stamp"
  | .cacheGet => "cache.get"
  | .cacheSet => "cache.set"
  | .cacheDelete => "cache.delete"

/-- Every point. -/
def all : List Point :=
  [.findRole, .roleGrants, .userGrants, .userRoles, .createRole, .updateRole,
   .replaceRoleGrants, .deleteRole, .replaceUserGrants, .replaceUserRoles, .createToken,
   .isTokenLive, .deleteToken, .deleteTokens, .findStamp, .updateStamp, .cacheGet,
   .cacheSet, .cacheDelete]

/-- The points that only read a store. -/
def reads : List Point :=
  [.findRole, .roleGrants, .userGrants, .userRoles, .isTokenLive, .findStamp]

/-- The point of a name. -/
def ofName? (s : String) : Option Point := all.find? (fun point => point.name == s)

/-- The point that a request goes through, if there is one. -/
def of? : Backend.Request → Option Point
  | .findRole _ => some .findRole
  | .roleGrants _ => some .roleGrants
  | .userGrants _ => some .userGrants
  | .userRoles _ => some .userRoles
  | .createRole _ => some .createRole
  | .updateRole _ _ => some .updateRole
  | .replaceRoleGrants _ _ => some .replaceRoleGrants
  | .deleteRole _ => some .deleteRole
  | .replaceUserGrants _ _ => some .replaceUserGrants
  | .replaceUserRoles _ _ => some .replaceUserRoles
  | .createToken _ => some .createToken
  | .isTokenLive _ _ _ => some .isTokenLive
  | .deleteToken _ _ => some .deleteToken
  | .deleteTokens _ => some .deleteTokens
  | .findStamp _ => some .findStamp
  | .updateStamp _ _ => some .updateStamp
  | .cacheGet _ => some .cacheGet
  | .cacheSet _ _ _ => some .cacheSet
  | .cacheDelete _ => some .cacheDelete
  | .sign _ => none
  | .verify _ => none
  | .now => none
  | .fresh => none

end Point

/-- What is wrong at a point. -/
inductive Fault where
  /-- Requests fail and do nothing. -/
  | fails
  /-- Requests are never answered. -/
  | stalls
  /-- Requests for a role or a stamp find nothing. -/
  | findsNothing
  /-- Before the work of a request a stamp of a user is cached. -/
  | cachesBefore (user : UserId) (stamp : SecurityStamp)
  /-- After the work of a request, if it did not fail, a stamp of a user is cached. -/
  | cachesAfter (user : UserId) (stamp : SecurityStamp)
  deriving DecidableEq

/-- The failure of a point. -/
def offline (point : Point) : Failure := .internal (point.name ++ " offline")

/-- The answer to a request that fails. -/
def failed (failure : Failure) : (r : Backend.Request) → Option (Backend.Answer r)
  | .findRole _ => some (.error failure)
  | .roleGrants _ => some (.error failure)
  | .userGrants _ => some (.error failure)
  | .userRoles _ => some (.error failure)
  | .createRole _ => some (.error failure)
  | .updateRole _ _ => some (.error failure)
  | .replaceRoleGrants _ _ => some (.error failure)
  | .deleteRole _ => some (.error failure)
  | .replaceUserGrants _ _ => some (.error failure)
  | .replaceUserRoles _ _ => some (.error failure)
  | .createToken _ => some (.error failure)
  | .isTokenLive _ _ _ => some (.error failure)
  | .deleteToken _ _ => some (.error failure)
  | .deleteTokens _ => some (.error failure)
  | .findStamp _ => some (.error failure)
  | .updateStamp _ _ => some (.error failure)
  | .cacheGet _ => some (.error failure)
  | .cacheSet _ _ _ => some (.error failure)
  | .cacheDelete _ => some (.error failure)
  | .sign _ => some (.error failure)
  | .verify _ => none
  | .now => none
  | .fresh => none

/-- The answer to a request that finds nothing. -/
def nothing : (r : Backend.Request) → Option (Backend.Answer r)
  | .findRole _ => some (.ok none)
  | .findStamp _ => some (.ok none)
  | _ => none

/-- Whether the work of a request was done. -/
def succeeded : (r : Backend.Request) → Backend.Answer r → Bool
  | .updateStamp _ _, answer => answer.isOk
  | .deleteTokens _, answer => answer.isOk
  | _, _ => true

end AccessControl.Trial
