import AccessControl.Authorization.Resolution

/-! # Deciding on permissions

A question about one permission is answered from the cache when everything needed is
cached, and by a resolution otherwise.
-/
namespace AccessControl.Authorization

/-- The cached permissions of roles, if those of every role are cached.  The roles after
one that is not cached are not looked up. -/
def cachedRoles : List RoleId → Program Backend (Option (List NameSet))
  | [] => return some []
  | role :: roles => do
    match ← Cached.rolePermissions role with
    | none => return none
    | some item =>
      match ← cachedRoles roles with
      | none => return none
      | some rest => return some (item.granted :: rest)

/-- What the cached items say about a permission of a user, if all of them are there. -/
def cachedDecision (user : UserId) (name : String) : Program Backend (Option Bool) := do
  match ← Cached.userRoles user with
  | none => return none
  | some roles =>
    match ← Cached.userPermissions user with
    | none => return none
    | some item =>
      match ← cachedRoles roles.roleIds with
      | none => return none
      | some held => return some ((Overrides.ofSets item.granted item.prohibited).decides name held)

variable (d : Deployment)

/-- Whether a user has a permission; nobody has one that is not of the catalog. -/
def isGranted (user : UserId) (name : String) : Service Bool := do
  if d.catalog.contains name then
    match ← cachedDecision user name with
    | some decision => return decision
    | none => return (← resolveUser d user).contains name
  else
    return false

/-- Whether a user has a permission of the catalog; another name is a failure. -/
def hasPermission (user : UserId) (name : String) : Service Bool := do
  d.catalog.ensureKnown [name]
  isGranted d user name

/-- The user has not the permission that an operation needs. -/
def lacks (user : UserId) (name : String) : Failure :=
  .forbidden ("user '" ++ user.text ++ "' is missing permission '" ++ name ++ "'")

/-- Fails unless a user has a permission. -/
def requirePermission (user : UserId) (name : String) : Service Unit := do
  let held ← hasPermission d user name
  failIf (!held) (lacks user name)

/-- The permissions of a user, in the order of the catalog. -/
def listGranted (user : UserId) : Service (List PermissionDefinition) := do
  let held ← resolveUser d user
  return d.catalog.definitions.filter (fun definition => held.contains definition.name.text)

end AccessControl.Authorization
