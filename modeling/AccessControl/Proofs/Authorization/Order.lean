import AccessControl.Proofs.Authorization.Requests
import AccessControl.Proofs.World.Fills

/-! # Resolutions keep to the order

A resolution caches what it has just read: the roles of a user, the rows of a user, and a role with
its rows.  A decision from the cache caches nothing, and neither writes.
-/
namespace AccessControl.Authorization
open World Outside Program
variable {d : Deployment} {catalog : Catalog} {role : RoleId} {user : UserId}

/-- **A role is cached as it was found, with the rows that were read after it.** -/
theorem keepsOrder_loadRole : KeepsOrder d.catalog (loadRole d role) := by
  intro log hlog
  rw [loadRole, ensures_run_bind]
  refine ensures_recording (I := Backend) (r := .findRole role) fun found => ?_
  have hfound := hlog.quiet (r := .findRole role) (quiet_of_not_writes rfl nofun) found
  rcases found with failure | (_ | record)
  · exact hfound
  · dsimp only
    rw [ensures_run_bind, ensures_run_lift]
    refine ensures_recording_remove fun removed => ensures_run_pure.mpr ?_
    exact hfound.quiet quiet_delete removed
  · dsimp only
    rw [ensures_run_bind]
    refine ensures_recording (I := Backend) (r := .roleGrants role) fun rows => ?_
    have hrows := hfound.quiet (r := .roleGrants role) (quiet_of_not_writes rfl nofun) rows
    cases rows with
    | error failure => exact hrows
    | ok rows =>
      dsimp only
      rw [ensures_run_bind]
      refine ensures_recording_store fun cached => ensures_run_pure.mpr ?_
      rw [← List.append_cons] at hrows
      have hcached := hrows.fill (.rolePermissions role record rows) d.cacheSeconds cached
      rwa [List.append_cons log] at hcached

theorem keepsOrder_loadRoles (roles : List RoleId) :
    KeepsOrder d.catalog (loadRoles d roles) := by
  induction roles with
  | nil => exact preserves_pure _
  | cons role roles ih =>
    rw [loadRoles]
    apply Preserves.bind keepsOrder_loadRole
    intro held?
    apply Preserves.bind ih
    exact fun rest => preserves_pure _

theorem keepsOrder_resolveRole : KeepsOrder d.catalog (resolveRole d role) := by
  rw [resolveRole]
  apply Preserves.bind keepsOrder_loadRole
  intro held?
  cases held? with
  | none => exact preserves_throw _
  | some held => exact preserves_pure held

/-- **The roles of a user, and then the rows, are cached as they were read.** -/
theorem keepsOrder_resolveUser : KeepsOrder d.catalog (resolveUser d user) := by
  intro log hlog
  rw [resolveUser, ensures_run_bind]
  refine ensures_recording (I := Backend) (r := .userRoles user) fun roles => ?_
  have hroles := hlog.quiet (r := .userRoles user) (quiet_of_not_writes rfl nofun) roles
  cases roles with
  | error failure => exact hroles
  | ok roles =>
    dsimp only
    rw [ensures_run_bind]
    refine ensures_recording_store fun cached => ?_
    have hcached := hroles.fill (.userRoles user roles) d.cacheSeconds cached
    dsimp only
    rw [ensures_run_bind]
    refine ensures_recording (I := Backend) (r := .userGrants user) fun rows => ?_
    have hrows := hcached.quiet (r := .userGrants user) (quiet_of_not_writes rfl nofun) rows
    cases rows with
    | error failure => exact hrows
    | ok rows =>
      dsimp only
      rw [ensures_run_bind]
      refine ensures_recording_store fun cached' => ?_
      have hcached' := hrows.fill (.userPermissions user rows) d.cacheSeconds cached'
      have hrest : KeepsOrder d.catalog (do
          let held ← loadRoles d roles
          return ((Overrides.ofRows rows).effective held).filter d.catalog.contains) :=
        Preserves.bind (keepsOrder_loadRoles roles) fun _ => preserves_pure _
      exact hrest _ hcached'

/-! ## Decisions -/

theorem asks_cachedDecision_quiet (user : UserId) (name : String) :
    (cachedDecision user name).Asks Quiet :=
  asks_cachedDecision (fun _ => quiet_get) (fun _ => quiet_delete) ⟨quiet_get, quiet_get⟩
    ⟨quiet_delete, quiet_delete⟩ name

theorem keepsOrder_isGranted (name : String) :
    KeepsOrder d.catalog (isGranted d user name) := by
  rw [isGranted]
  split
  · refine Preserves.bind (keepsOrder_of_asks (asks_cachedDecision_quiet user name).run_lift) ?_
    intro decision?
    cases decision? with
    | some decision => exact preserves_pure decision
    | none => exact Preserves.bind keepsOrder_resolveUser fun _ => preserves_pure _
  · exact preserves_pure false

theorem keepsOrder_hasPermission (name : String) :
    KeepsOrder d.catalog (hasPermission d user name) :=
  Preserves.bind (preserves_check _) fun _ => keepsOrder_isGranted name

theorem keepsOrder_requirePermission (user : UserId) (name : String) :
    KeepsOrder d.catalog (requirePermission d user name) :=
  Preserves.bind (keepsOrder_hasPermission name) fun _ => preserves_check _

theorem keepsOrder_listGranted : KeepsOrder d.catalog (listGranted d user) :=
  Preserves.bind keepsOrder_resolveUser fun _ => preserves_pure _

end AccessControl.Authorization
