import AccessControl.Database.Transaction

/-! # Roles in the database

Rows are never changed in place: the rows that a write replaces are deleted, and the new
ones are inserted one by one in the same transaction.
-/
namespace AccessControl.Database

/-- The code with which the database reports that a name is taken. -/
def uniqueViolation : String := "23505"

/-- Why a role could not be written. -/
def roleNotWritten (name : String) (fault : QueryFault) : Failure :=
  match fault with
  | .reported report =>
    if report.code = uniqueViolation then Role.nameTaken name
    else couldNot ("write role '" ++ name ++ "'") fault
  | .noRow => couldNot ("write role '" ++ name ++ "'") fault

/-- The role with a number. -/
def findRole (role : RoleId) : Action (Option Role) :=
  fetchOptional (.selectRole role) (couldNot ("find role '" ++ role.text ++ "'"))

/-- The rows of a role. -/
def roleGrants (role : RoleId) : Action (List Grant) :=
  fetchAll (.selectRoleGrants role) (couldNot "load role grants")

/-- Removes the rows of a role. -/
def clearRoleGrants (role : RoleId) : Action Unit := do
  let _ ← execute (.deleteRoleGrants role) (couldNot "clear role grants")

/-- Stores rows of a role one after the other. -/
def insertRoleGrants (role : RoleId) : List Grant → Action Unit
  | [] => return ()
  | grant :: grants => do
    let _ ← execute (.insertRoleGrant role grant) (couldNot "persist role grants")
    insertRoleGrants role grants

/-- Stores a role with its rows. -/
def createRole (role : NewRole) : Action Role :=
  transaction do
    let record ← fetchOne (.insertRole role.name role.displayName role.isPrivileged)
      (roleNotWritten role.name)
    insertRoleGrants record.id role.grants
    return record

/-- Changes a role, and its rows if new ones are given. -/
def updateRole (role : RoleId) (change : RoleChange) : Action Unit :=
  transaction do
    let affected ← affecting
      (.updateRole role change.name change.displayName change.isPrivileged)
      (roleNotWritten change.name)
    failIf (affected = 0) (Role.missing role)
    match change.grants? with
    | some grants =>
      clearRoleGrants role
      insertRoleGrants role grants
    | none => return ()

/-- Replaces the rows of a role. -/
def replaceRoleGrants (role : RoleId) (grants : List Grant) : Action Unit :=
  transaction do
    match ← fetchOptional (.lockRole role) (couldNot "lock role") with
    | none => throw (Role.missing role)
    | some _ =>
      clearRoleGrants role
      insertRoleGrants role grants

/-- Removes a role and takes it from the users who have it; their numbers are given in
ascending order. -/
def deleteRole (role : RoleId) : Action (List UserId) := do
  let users ← transaction do
    let users ← fetchAll (.deleteAssignments role) (couldNot "remove role assignments")
    let affected ← affecting (.deleteRole role) (couldNot "delete role")
    failIf (affected = 0) (Role.missing role)
    return users
  return users.mergeSort (fun a b => a.number ≤ b.number)

end AccessControl.Database
