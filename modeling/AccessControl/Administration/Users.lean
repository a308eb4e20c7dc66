import AccessControl.Administration.Roles

/-! # Administration of users

What is given to or prohibited for a user alone is replaced as a whole, as are the roles
of a user.
-/
namespace AccessControl.Administration
variable (d : Deployment) (actor : UserId)

/-- Replaces the rows of a user and removes what is cached of them. -/
def replaceOverrides (user : UserId) (rows : List Grant) : Service Unit := do
  Backend.replaceUserGrants user rows
  Cached.remove (.userPermissions user)

/-- Replaces what is given to and prohibited for a user; of several changes of one
permission the last one counts. -/
def setUserPermissions (user : UserId) (changes : List Grant) : Service Unit := do
  Authorization.requirePermission d actor Permission.changeUserPermissions
  let rows := Grant.normalize changes
  d.catalog.ensureKnown (rows.map (·.permission))
  replaceOverrides user rows

/-- The permissions that the roles of a user hold. -/
def roleDerived (user : UserId) : Service NameSet := do
  let roles ← Backend.userRoles user
  let held ← Authorization.loadRoles d roles
  return held.foldl (fun all role => role ∪ all) ∅

/-- The row that makes a user hold one permission or not, given whether it is wanted and
whether the roles hold it. -/
def overrideFor (wanted derived : NameSet) (name : String) : Option Grant :=
  match wanted.contains name, derived.contains name with
  | true, false => some (.granting name)
  | false, true => some (.prohibiting name)
  | _, _ => none

/-- Makes a user hold exactly the given permissions, with rows only where the roles
decide otherwise. -/
def setUserGrantedPermissions (user : UserId) (granted : List String) : Service Unit := do
  Authorization.requirePermission d actor Permission.changeUserPermissions
  let wanted : NameSet := .ofList granted
  d.catalog.ensureKnown wanted.toList
  let derived ← roleDerived d user
  replaceOverrides user (d.catalog.nameList.filterMap (overrideFor wanted derived))

/-- Removes everything given to or prohibited for a user alone. -/
def resetUserPermissions (user : UserId) : Service Unit := do
  Authorization.requirePermission d actor Permission.changeUserPermissions
  replaceOverrides user []

/-- Replaces the roles of a user. -/
def setUserRoles (user : UserId) (roles : List RoleId) : Service Unit := do
  Authorization.requirePermission d actor Permission.editUsers
  Backend.replaceUserRoles user (SortedSet.ofList roles).toList
  Cached.remove (.userRoles user)

end AccessControl.Administration
