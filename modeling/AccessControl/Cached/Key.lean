import AccessControl.Identity

/-! # Keys of cached items

Everything that shares a cache uses the same keys.  Each kind of item has a word of its
own in front, so items of different kinds never meet.
-/
namespace AccessControl

/-- What a cached item is about. -/
inductive CacheKey where
  /-- The roles of a user. -/
  | userRoles (user : UserId)
  /-- What is given to and prohibited for a user alone. -/
  | userPermissions (user : UserId)
  /-- The permissions of a role. -/
  | rolePermissions (role : RoleId)
  /-- A token with a live record. -/
  | tokenValidity (user : UserId) (key : TokenKey)
  /-- The stamp of a user. -/
  | securityStamp (user : UserId)
  deriving DecidableEq

/-- The text under which an item is cached. -/
def CacheKey.text : CacheKey → String
  | .userRoles user => "UserRoles:u" ++ user.text
  | .userPermissions user => "UserPermissions:u" ++ user.text
  | .rolePermissions role => "RolePermissions:r" ++ role.text
  | .tokenValidity user key => "TokenValidity:" ++ user.text ++ "." ++ key.text
  | .securityStamp user => "SecurityStamp:" ++ user.text

end AccessControl
