import AccessControl.Program.Backend

/-! # Statements

Everything that is asked of the database is one of these statements.  A statement has a
text with numbered places, the parameters for the places, and a type of rows.
-/
namespace AccessControl.Database

/-- A parameter of a statement. -/
inductive Parameter where
  | number (n : Int64)
  | flag (b : Bool)
  | text (s : String)
  | uuid (u : Uuid)
  | instant (t : Instant)
  deriving DecidableEq

/-- A statement with its parameters. -/
inductive Statement where
  | selectRole (role : RoleId)
  | selectRoleGrants (role : RoleId)
  | selectUserGrants (user : UserId)
  | selectUserRoles (user : UserId)
  | insertRole (name displayName : String) (isPrivileged : Bool)
  | updateRole (role : RoleId) (name displayName : String) (isPrivileged : Bool)
  | lockRole (role : RoleId)
  | deleteRoleGrants (role : RoleId)
  | insertRoleGrant (role : RoleId) (grant : Grant)
  | deleteAssignments (role : RoleId)
  | deleteRole (role : RoleId)
  | lockUser (user : UserId)
  | deleteUserGrants (user : UserId)
  | insertUserGrant (user : UserId) (grant : Grant)
  | deleteUserRoles (user : UserId)
  | insertUserRole (user : UserId) (role : RoleId)
  | insertToken (user : UserId) (key : TokenKey) (expiresAt : Instant)
  | existsToken (user : UserId) (key : TokenKey) (now : Instant)
  | deleteToken (user : UserId) (key : TokenKey)
  | deleteTokens (user : UserId)
  | selectStamp (user : UserId)
  | updateStamp (user : UserId) (stamp : SecurityStamp)
  deriving DecidableEq

namespace Statement

/-- The text of a statement. -/
def text : Statement → String
  | .selectRole _ => "SELECT id, name, display_name, is_privileged FROM roles WHERE id = $1"
  | .selectRoleGrants _ =>
    "SELECT name, is_granted FROM role_permissions WHERE role_id = $1 ORDER BY name, id"
  | .selectUserGrants _ =>
    "SELECT name, is_granted FROM user_permissions WHERE user_id = $1 ORDER BY name, id"
  | .selectUserRoles _ => "SELECT role_id FROM user_roles WHERE user_id = $1 ORDER BY role_id"
  | .insertRole _ _ _ =>
    "INSERT INTO roles (name, display_name, is_privileged) VALUES ($1, $2, $3) " ++
    "RETURNING id, name, display_name, is_privileged"
  | .updateRole _ _ _ _ =>
    "UPDATE roles SET name = $2, display_name = $3, is_privileged = $4 WHERE id = $1"
  | .lockRole _ => "SELECT id FROM roles WHERE id = $1 FOR UPDATE"
  | .deleteRoleGrants _ => "DELETE FROM role_permissions WHERE role_id = $1"
  | .insertRoleGrant _ _ =>
    "INSERT INTO role_permissions (role_id, name, is_granted) VALUES ($1, $2, $3)"
  | .deleteAssignments _ => "DELETE FROM user_roles WHERE role_id = $1 RETURNING user_id"
  | .deleteRole _ => "DELETE FROM roles WHERE id = $1"
  | .lockUser _ => "SELECT id FROM users WHERE id = $1 FOR UPDATE"
  | .deleteUserGrants _ => "DELETE FROM user_permissions WHERE user_id = $1"
  | .insertUserGrant _ _ =>
    "INSERT INTO user_permissions (user_id, name, is_granted) VALUES ($1, $2, $3)"
  | .deleteUserRoles _ => "DELETE FROM user_roles WHERE user_id = $1"
  | .insertUserRole _ _ =>
    "INSERT INTO user_roles (user_id, role_id) VALUES ($1, $2) " ++
    "ON CONFLICT (user_id, role_id) DO NOTHING"
  | .insertToken _ _ _ =>
    "INSERT INTO user_tokens (user_id, token_key, expire_at) VALUES ($1, $2, $3)"
  | .existsToken _ _ _ =>
    "SELECT EXISTS ( SELECT 1 FROM user_tokens WHERE user_id = $1 " ++
    "AND token_key = $2 AND expire_at > $3 )"
  | .deleteToken _ _ => "DELETE FROM user_tokens WHERE user_id = $1 AND token_key = $2"
  | .deleteTokens _ => "DELETE FROM user_tokens WHERE user_id = $1"
  | .selectStamp _ => "SELECT security_stamp FROM users WHERE id = $1"
  | .updateStamp _ _ => "UPDATE users SET security_stamp = $2 WHERE id = $1"

/-- The parameters of a statement, in the order of their places. -/
def parameters : Statement → List Parameter
  | .selectRole role => [.number role.number]
  | .selectRoleGrants role => [.number role.number]
  | .selectUserGrants user => [.number user.number]
  | .selectUserRoles user => [.number user.number]
  | .insertRole name displayName isPrivileged =>
    [.text name, .text displayName, .flag isPrivileged]
  | .updateRole role name displayName isPrivileged =>
    [.number role.number, .text name, .text displayName, .flag isPrivileged]
  | .lockRole role => [.number role.number]
  | .deleteRoleGrants role => [.number role.number]
  | .insertRoleGrant role grant =>
    [.number role.number, .text grant.permission, .flag grant.isGranted]
  | .deleteAssignments role => [.number role.number]
  | .deleteRole role => [.number role.number]
  | .lockUser user => [.number user.number]
  | .deleteUserGrants user => [.number user.number]
  | .insertUserGrant user grant =>
    [.number user.number, .text grant.permission, .flag grant.isGranted]
  | .deleteUserRoles user => [.number user.number]
  | .insertUserRole user role => [.number user.number, .number role.number]
  | .insertToken user key expiresAt =>
    [.number user.number, .uuid key.uuid, .instant expiresAt]
  | .existsToken user key now => [.number user.number, .uuid key.uuid, .instant now]
  | .deleteToken user key => [.number user.number, .uuid key.uuid]
  | .deleteTokens user => [.number user.number]
  | .selectStamp user => [.number user.number]
  | .updateStamp user stamp => [.number user.number, .uuid stamp.uuid]

/-- The rows that a statement may give; a statement that gives none has no need of them. -/
@[reducible] def Row : Statement → Type
  | .selectRole _ => Role
  | .selectRoleGrants _ => Grant
  | .selectUserGrants _ => Grant
  | .selectUserRoles _ => RoleId
  | .insertRole _ _ _ => Role
  | .lockRole _ => Int64
  | .deleteAssignments _ => UserId
  | .lockUser _ => Int64
  | .existsToken _ _ _ => Bool
  | .selectStamp _ => SecurityStamp
  | _ => Unit

end Statement
end AccessControl.Database
