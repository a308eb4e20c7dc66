import AccessControl.Authorization.Decision

/-! # Administration of roles

Every operation names the user who asks for it and first requires that this user has the
permission it needs.  After a write the cached items that the write concerns are removed.

A role is said to hold a list of permissions and gets the rows that make it hold exactly
these: an ordinary role one granting row for each, a privileged role one prohibition for
each permission of the catalog that is not in the list (`rowsHolding`).
-/
namespace AccessControl.Administration
variable (d : Deployment) (actor : UserId)

/-- The role with a number, which must exist. -/
def existingRole (role : RoleId) : Service Role := do
  match ← Backend.findRole role with
  | some record => return record
  | none => throw (Role.missing role)

/-- The rows that make a role hold exactly the given permissions. -/
def rowsHolding (catalog : Catalog) (isPrivileged : Bool) (names : NameSet) : List Grant :=
  if isPrivileged then
    (catalog.nameList.filter (fun name => !names.contains name)).map Grant.prohibiting
  else names.toList.map Grant.granting

/-- Creates a role that holds the given permissions.  A blank label is replaced by the
name. -/
def createRole (name displayName : String) (granted : List String) : Service Role := do
  Authorization.requirePermission d actor Permission.createRoles
  let name := trim name
  failIf name.isEmpty (Failure.validation "role name must not be empty")
  let names : NameSet := .ofList granted
  d.catalog.ensureKnown names.toList
  let isPrivileged := Role.isPrivilegedName name
  let displayName := trim displayName
  let role ← Backend.createRole {
    name
    displayName := if displayName.isEmpty then name else displayName
    isPrivileged
    grants := rowsHolding d.catalog isPrivileged names }
  Cached.remove (.rolePermissions role.id)
  return role

/-- Renames a role.  If it becomes or ceases to be privileged, its rows are replaced so
that it holds what it held.  What is cached for the role is removed even if the write
fails. -/
def renameRole (role : RoleId) (name displayName : String) : Service Role := do
  Authorization.requirePermission d actor Permission.editRoles
  let current ← existingRole role
  let renamed ← Role.new role name displayName
  let grants? ←
    if renamed.isPrivileged != current.isPrivileged then do
      let held ← Authorization.resolveRole d role
      pure (some (rowsHolding d.catalog renamed.isPrivileged held))
    else pure none
  let written ← Backend.outcome (Backend.updateRole role {
    name := renamed.name
    displayName := renamed.displayName
    isPrivileged := renamed.isPrivileged
    grants? })
  Cached.remove (.rolePermissions role)
  Backend.conclude written
  return renamed

/-- Makes a role hold exactly the given permissions. -/
def setRolePermissions (role : RoleId) (granted : List String) : Service Unit := do
  Authorization.requirePermission d actor Permission.editRoles
  let names : NameSet := .ofList granted
  d.catalog.ensureKnown names.toList
  let record ← existingRole role
  Backend.replaceRoleGrants role (rowsHolding d.catalog record.isPrivileged names)
  Cached.remove (.rolePermissions role)

/-- Removes the cached roles of users. -/
def forgetRolesOf : List UserId → Program Backend Unit
  | [] => return ()
  | user :: users => do
    Cached.remove (.userRoles user)
    forgetRolesOf users

/-- Deletes a role; the users who had it lose it. -/
def deleteRole (role : RoleId) : Service Unit := do
  Authorization.requirePermission d actor Permission.deleteRoles
  let users ← Backend.deleteRole role
  Cached.remove (.rolePermissions role)
  forgetRolesOf users

/-- The stored rows of a role. -/
def listRoleGrants (role : RoleId) : Service (List Grant) := do
  Authorization.requirePermission d actor Permission.listRoles
  let _ ← existingRole role
  Backend.roleGrants role

end AccessControl.Administration
