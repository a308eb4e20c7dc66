import AccessControl.Administration.Users
import AccessControl.Proofs.Administration.Rename
import AccessControl.Proofs.Authorization.Order

/-! # Administration keeps to the order

Every write of a service is followed by the removals of what it has made wrong, whichever way the
write and the removals end; a write that a store refuses has made nothing wrong.  What a service
reads before it writes, it resolves and caches like everybody else.
-/
namespace AccessControl.Administration
open World Outside Program Authorization
variable {d : Deployment} {catalog : Catalog} {role : RoleId} {user : UserId}
  {log : List (Exchange Backend)} {key : CacheKey}

/-- A write that fails leaves nothing to be removed. -/
theorem orderly_of_failed {e : Exchange Backend} (h : Orderly catalog log)
    (hset : ∀ text value seconds, e.request ≠ .cacheSet text value seconds)
    (he : ∀ key, ¬Unsettles key e) : Orderly catalog (log ++ [e]) :=
  (h.concat hset).mono fun key hkey => hkey.elim id (he key)

/-- After a write that succeeds the items that it has made wrong are to be removed. -/
theorem orderlyBut_of_written {e : Exchange Backend} {pending : CacheKey → Prop}
    (h : Orderly catalog log)
    (hset : ∀ text value seconds, e.request ≠ .cacheSet text value seconds)
    (he : ∀ key, Unsettles key e → pending key) : OrderlyBut catalog pending (log ++ [e]) :=
  (h.concat hset).mono fun key hkey => hkey.elim False.elim (he key)

/-- The removal of the one item that a write has made wrong. -/
theorem ensures_recording_remove_last (h : OrderlyBut catalog (· = key) log) :
    (recording Backend).Ensures (Cached.remove key) log fun _ log' => Orderly catalog log' :=
  ensures_recording_remove fun removed => h.remove_last removed

/-- **A write is followed by the removal of the one item that it has made wrong**: then it keeps to
the order, whether it succeeds or fails. -/
theorem keepsOrder_write_remove {write : Service Unit} {r : Backend.Request}
    {answer : Except Failure Unit → Backend.Answer r}
    (hasked : ∀ log Q, (∀ a, Q a (log ++ [⟨r, answer a⟩])) →
      (recording Backend).Ensures write.run log Q)
    (hset : ∀ text value seconds, r ≠ .cacheSet text value seconds)
    (hfailed : ∀ failure key, ¬Unsettles key ⟨r, answer (.error failure)⟩)
    (hok : ∀ key', Unsettles key' ⟨r, answer (.ok ())⟩ → key' = key) :
    KeepsOrder catalog (do write; Cached.remove key) := by
  intro log hlog
  rw [ensures_run_bind]
  refine hasked log _ fun written => ?_
  cases written with
  | error failure => exact orderly_of_failed hlog hset (hfailed failure)
  | ok _ =>
    dsimp only
    rw [ensures_run_lift]
    exact ensures_recording_remove_last (orderlyBut_of_written hlog hset hok)

theorem keepsOrder_existingRole : KeepsOrder catalog (existingRole role) := by
  have hfind : (Backend.findRole role).run.Asks Quiet :=
    asks_backend (.findRole role) (quiet_of_not_writes rfl nofun)
  apply Preserves.bind (keepsOrder_of_asks hfind)
  intro record?
  cases record? with
  | none => exact preserves_throw _
  | some record => exact preserves_pure record

/-! ## Roles -/

theorem keepsOrder_createRole (actor : UserId) (name displayName : String)
    (granted : List String) :
    KeepsOrder d.catalog (createRole d actor name displayName granted) := by
  apply Preserves.bind (keepsOrder_requirePermission actor _)
  intro _
  apply Preserves.bind (preserves_check _)
  intro _
  apply Preserves.bind (preserves_check _)
  intro _ log hlog
  rw [ensures_run_bind]
  refine ensures_recording (I := Backend) (r := .createRole _) fun created => ?_
  cases created with
  | error failure => exact orderly_of_failed hlog nofun fun _ => id
  | ok record =>
    dsimp only
    rw [ensures_run_bind, ensures_run_lift]
    refine Ensures.mono (ensures_recording_remove_last ?_) fun _ _ h => ensures_run_pure.mpr h
    exact orderlyBut_of_written hlog nofun fun _ hkey => hkey

theorem keepsOrder_rowsAfter (current renamed : Role) :
    KeepsOrder d.catalog (rowsAfter d role current renamed) := by
  rw [rowsAfter]
  split
  · exact Preserves.bind keepsOrder_resolveRole fun _ => preserves_pure _
  · exact preserves_pure none

/-- The item of a renamed role is removed even if the write fails. -/
theorem keepsOrder_writeRenamed (renamed : Role) (grants? : Option (List Grant)) :
    KeepsOrder catalog (writeRenamed role renamed grants?) := by
  intro log hlog
  rw [writeRenamed, ensures_run_bind, ensures_run_outcome]
  refine ensures_recording (I := Backend) (r := .updateRole role _) fun written => ?_
  have hwritten : OrderlyBut catalog (· = .rolePermissions role) _ :=
    orderlyBut_of_written (e := ⟨.updateRole role _, written⟩) hlog nofun fun key hkey => by
      cases written with
      | ok _ => exact hkey
      | error failure => exact False.elim hkey
  dsimp only
  rw [ensures_run_bind, ensures_run_lift]
  refine (ensures_recording_remove_last hwritten).mono fun _ log' hremoved => ?_
  dsimp only
  rw [ensures_run_bind, ensures_run_conclude]
  cases written with
  | ok _ => exact ensures_run_pure.mpr hremoved
  | error failure => exact hremoved

theorem keepsOrder_renameRole (actor : UserId) (name displayName : String) :
    KeepsOrder d.catalog (renameRole d actor role name displayName) := by
  rw [renameRole_eq]
  apply Preserves.bind (keepsOrder_requirePermission actor _)
  intro _
  apply Preserves.bind keepsOrder_existingRole
  intro current
  apply Preserves.bind (preserves_check _)
  intro renamed
  apply Preserves.bind (keepsOrder_rowsAfter current renamed)
  exact fun grants? => keepsOrder_writeRenamed renamed grants?

theorem keepsOrder_setRolePermissions (actor : UserId) (granted : List String) :
    KeepsOrder d.catalog (setRolePermissions d actor role granted) := by
  apply Preserves.bind (keepsOrder_requirePermission actor _)
  intro _
  apply Preserves.bind (preserves_check _)
  intro _
  apply Preserves.bind keepsOrder_existingRole
  intro record
  exact keepsOrder_write_remove
    (fun _ _ => ensures_recording (I := Backend) (r := .replaceRoleGrants role _))
    nofun (fun _ _ => id) fun _ => id

/-- **Removing the roles of the users of a list puts the exchanges in order**, if only those were to
be removed. -/
theorem ensures_recording_forgetRolesOf {users : List UserId}
    (h : OrderlyBut catalog (fun key => ∃ user ∈ users, key = .userRoles user) log) :
    (recording Backend).Ensures (forgetRolesOf users) log fun _ log' => Orderly catalog log' := by
  -- With every removal one user fewer is left.
  induction users generalizing log with
  | nil =>
    rw [forgetRolesOf, ensures_pure]
    exact h.mono fun key hkey => by simp at hkey
  | cons user users ih =>
    rw [forgetRolesOf, ensures_bind]
    refine ensures_recording_remove fun removed => ih ?_
    apply (h.remove (.userRoles user) removed).mono
    rintro _ ⟨⟨user', huser', rfl⟩, hne⟩
    rcases List.mem_cons.mp huser' with rfl | hmem
    · exact absurd rfl hne
    · exact ⟨user', hmem, rfl⟩

theorem keepsOrder_deleteRole (actor : UserId) :
    KeepsOrder d.catalog (deleteRole d actor role) := by
  apply Preserves.bind (keepsOrder_requirePermission actor _)
  intro _ log hlog
  rw [ensures_run_bind]
  refine ensures_recording (I := Backend) (r := .deleteRole role) fun deleted => ?_
  cases deleted with
  | error failure => exact orderly_of_failed hlog nofun fun _ => id
  | ok users =>
    dsimp only
    rw [ensures_run_bind, ensures_run_lift]
    -- The users of the answer have lost the role, so what is cached of their roles is wrong too.
    have hwritten : OrderlyBut d.catalog (fun key => key = .rolePermissions role ∨
        ∃ user ∈ users, key = .userRoles user) _ :=
      orderlyBut_of_written (e := ⟨.deleteRole role, .ok users⟩) hlog nofun fun _ hkey => hkey
    refine ensures_recording_remove fun removed => ?_
    dsimp only
    rw [ensures_run_lift]
    apply ensures_recording_forgetRolesOf
    apply (hwritten.remove (.rolePermissions role) removed).mono
    exact fun _ hkey => hkey.1.resolve_left hkey.2

/-! ## Users -/

theorem keepsOrder_replaceOverrides (rows : List Grant) :
    KeepsOrder catalog (replaceOverrides user rows) :=
  keepsOrder_write_remove
    (fun _ _ => ensures_recording (I := Backend) (r := .replaceUserGrants user rows))
    nofun (fun _ _ => id) fun _ => id

theorem keepsOrder_setUserGrantedPermissions (actor : UserId) (granted : List String) :
    KeepsOrder d.catalog (setUserGrantedPermissions d actor user granted) := by
  have hroles : (Backend.userRoles user).run.Asks Quiet :=
    asks_backend (.userRoles user) (quiet_of_not_writes rfl nofun)
  have hderived : KeepsOrder d.catalog (roleDerived d user) := by
    apply Preserves.bind (keepsOrder_of_asks hroles)
    intro roles
    exact Preserves.bind (keepsOrder_loadRoles roles) fun _ => preserves_pure _
  apply Preserves.bind (keepsOrder_requirePermission actor _)
  intro _
  apply Preserves.bind (preserves_check _)
  intro _
  exact Preserves.bind hderived fun _ => keepsOrder_replaceOverrides _

theorem keepsOrder_setUserRoles (actor : UserId) (roles : List RoleId) :
    KeepsOrder d.catalog (setUserRoles d actor user roles) := by
  apply Preserves.bind (keepsOrder_requirePermission actor _)
  intro _
  exact keepsOrder_write_remove
    (fun _ _ => ensures_recording (I := Backend) (r := .replaceUserRoles user _))
    nofun (fun _ _ => id) fun _ => id

theorem keepsOrder_setUserPermissions (actor : UserId) (changes : List Grant) :
    KeepsOrder d.catalog (setUserPermissions d actor user changes) := by
  apply Preserves.bind (keepsOrder_requirePermission actor _)
  intro _
  exact Preserves.bind (preserves_check _) fun _ => keepsOrder_replaceOverrides _

theorem keepsOrder_resetUserPermissions (actor : UserId) :
    KeepsOrder d.catalog (resetUserPermissions d actor user) :=
  Preserves.bind (keepsOrder_requirePermission actor _) fun _ => keepsOrder_replaceOverrides []

end AccessControl.Administration
