import AccessControl.Administration.Roles

/-! # The parts of a renaming

A renaming finds the new rows, if there must be any, and writes them with the new name.  The
two parts have names here, so that each can be spoken of by itself.
-/
namespace AccessControl.Administration
variable (d : Deployment) (actor : UserId) (role : RoleId)

/-- The rows with which a renamed role holds what it held; none if it keeps its rows. -/
def rowsAfter (current renamed : Role) : Service (Option (List Grant)) :=
  if renamed.isPrivileged != current.isPrivileged then do
    let held ← Authorization.resolveRole d role
    return some (rowsHolding d.catalog renamed.isPrivileged held)
  else return none

/-- Writes a renamed role and removes what is cached for it. -/
def writeRenamed (renamed : Role) (grants? : Option (List Grant)) : Service Role := do
  let written ← Backend.outcome (Backend.updateRole role {
    name := renamed.name
    displayName := renamed.displayName
    isPrivileged := renamed.isPrivileged
    grants? })
  Cached.remove (.rolePermissions role)
  Backend.conclude written
  return renamed

/-- **A renaming is its checks, then the new rows, then the write.** -/
theorem renameRole_eq (name displayName : String) :
    renameRole d actor role name displayName = (do
      Authorization.requirePermission d actor Permission.editRoles
      let current ← existingRole role
      let renamed ← (liftM (Role.new role name displayName) : Service Role)
      let grants? ← rowsAfter d role current renamed
      writeRenamed role renamed grants?) := by
  rw [renameRole]
  refine congrArg _ (funext fun _ => congrArg _ (funext fun current => congrArg _ (funext
    fun renamed => ?_)))
  rw [rowsAfter]
  dsimp only
  split
  · rw [LawfulMonad.bind_assoc]
    rfl
  · rfl

end AccessControl.Administration
