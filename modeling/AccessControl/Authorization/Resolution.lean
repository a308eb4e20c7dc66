import AccessControl.Cached.Access
import AccessControl.Permission.Effective
import AccessControl.Program.Deployment

/-! # Resolving permissions

A resolution computes the permissions of a role or of a user from what is stored and
caches every part it has read.  It never reads the cache, so resolutions that run at the
same time do not depend on each other.
-/
namespace AccessControl.Authorization
variable (d : Deployment)

/-- The permissions of a role; none if there is no such role, and then nothing stays
cached for it. -/
def loadRole (role : RoleId) : Service (Option NameSet) := do
  match ← Backend.findRole role with
  | none =>
    Cached.remove (.rolePermissions role)
    return none
  | some record =>
    let rows ← Backend.roleGrants role
    let held := record.effective rows d.catalog
    Cached.store d.cacheSeconds (Cached.RolePermissions.mk role held)
    return some held

/-- The permissions of those of the roles that exist, in the order of the roles. -/
def loadRoles : List RoleId → Service (List NameSet)
  | [] => return []
  | role :: roles => do
    let held? ← loadRole d role
    let rest ← loadRoles roles
    return held?.toList ++ rest

/-- The permissions of a role, which must exist. -/
def resolveRole (role : RoleId) : Service NameSet := do
  match ← loadRole d role with
  | some held => return held
  | none => throw (Role.missing role)

/-- The permissions of a user: what is given to the user alone, and what the roles hold
unless it is prohibited for the user.  Names that are not of the catalog do not count. -/
def resolveUser (user : UserId) : Service NameSet := do
  let roles ← Backend.userRoles user
  Cached.store d.cacheSeconds (Cached.UserRoles.mk user roles)
  let rows ← Backend.userGrants user
  let overrides := Overrides.ofRows rows
  Cached.store d.cacheSeconds
    (Cached.UserPermissions.mk user overrides.granted overrides.prohibited)
  let held ← loadRoles d roles
  return (overrides.effective held).filter d.catalog.contains

end AccessControl.Authorization
