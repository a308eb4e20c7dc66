import AccessControl.Authorization.Decision
import AccessControl.Proofs.Program.Service

/-! # What resolutions and decisions ask for

A decision on a user reads what is stored and cached of the user and of roles, and caches what it
has read.  `AllowsDecisions P user` says that a kind of requests `P` has all of that; so one walk
through the services tells, for every kind, whether decisions keep to it.
-/
namespace AccessControl.Authorization
open Program

/-- A kind of requests has all that is asked of the cache about an item. -/
structure AllowsItem (P : Backend.Request → Prop) (key : CacheKey) : Prop where
  get : P (.cacheGet key.text)
  delete : P (.cacheDelete key.text)
  set : ∀ value seconds, P (.cacheSet key.text value seconds)

/-- A kind of requests has all that is asked for about a role. -/
structure AllowsRole (P : Backend.Request → Prop) (role : RoleId) : Prop where
  find : P (.findRole role)
  rows : P (.roleGrants role)
  item : AllowsItem P (.rolePermissions role)

/-- A kind of requests has all that decisions on a user ask for. -/
structure AllowsDecisions (P : Backend.Request → Prop) (user : UserId) : Prop where
  roles : P (.userRoles user)
  rows : P (.userGrants user)
  rolesItem : AllowsItem P (.userRoles user)
  rowsItem : AllowsItem P (.userPermissions user)
  role : ∀ role, AllowsRole P role

variable {P : Backend.Request → Prop} {d : Deployment} {user : UserId}

theorem asks_loadRole {role : RoleId} (h : AllowsRole P role) : (loadRole d role).run.Asks P := by
  refine Asks.run_bind (asks_backend (.findRole role) h.find) fun found => ?_
  cases found with
  | none => exact Asks.run_bind (asks_remove h.item.delete).run_lift fun _ => asks_run_pure _
  | some record =>
    refine Asks.run_bind (asks_backend (.roleGrants role) h.rows) fun rows => ?_
    exact Asks.run_bind (asks_store (h.item.set _ _)).run_lift fun _ => asks_run_pure _

theorem asks_loadRoles (h : ∀ role, AllowsRole P role) (roles : List RoleId) :
    (loadRoles d roles).run.Asks P := by
  induction roles with
  | nil => exact asks_run_pure _
  | cons role roles ih =>
    exact Asks.run_bind (asks_loadRole (h role)) fun _ => ih.run_bind fun _ => asks_run_pure _

theorem asks_resolveUser (h : AllowsDecisions P user) : (resolveUser d user).run.Asks P := by
  refine Asks.run_bind (asks_backend (.userRoles user) h.roles) fun roles => ?_
  refine Asks.run_bind (asks_store (h.rolesItem.set _ _)).run_lift fun _ => ?_
  refine Asks.run_bind (asks_backend (.userGrants user) h.rows) fun rows => ?_
  refine Asks.run_bind (asks_store (h.rowsItem.set _ _)).run_lift fun _ => ?_
  exact Asks.run_bind (asks_loadRoles h.role roles) fun _ => asks_run_pure _

/-! ## Decisions -/

section Cached
variable (hget : ∀ role, P (.cacheGet (CacheKey.rolePermissions role).text))
  (hdelete : ∀ role, P (.cacheDelete (CacheKey.rolePermissions role).text))
include hget hdelete

theorem asks_cachedRoles (roles : List RoleId) : (cachedRoles roles).Asks P := by
  induction roles with
  | nil => exact asks_done _
  | cons role roles ih =>
    refine (asks_read (hget role) (hdelete role)).bind fun item? => ?_
    cases item? with
    | none => exact asks_done _
    | some item =>
      refine ih.bind fun rest? => ?_
      cases rest? <;> exact asks_done _

/-- A decision from the cache only reads from it, and removes what it cannot read. -/
theorem asks_cachedDecision
    (hgetUser : P (.cacheGet (CacheKey.userRoles user).text) ∧
      P (.cacheGet (CacheKey.userPermissions user).text))
    (hdeleteUser : P (.cacheDelete (CacheKey.userRoles user).text) ∧
      P (.cacheDelete (CacheKey.userPermissions user).text)) (name : String) :
    (cachedDecision user name).Asks P := by
  refine (asks_read hgetUser.1 hdeleteUser.1).bind fun roles? => ?_
  cases roles? with
  | none => exact asks_done _
  | some roles =>
    refine (asks_read hgetUser.2 hdeleteUser.2).bind fun item? => ?_
    cases item? with
    | none => exact asks_done _
    | some item =>
      refine (asks_cachedRoles hget hdelete roles.roleIds).bind fun held? => ?_
      cases held? <;> exact asks_done _

end Cached

theorem asks_isGranted (h : AllowsDecisions P user) (name : String) :
    (isGranted d user name).run.Asks P := by
  have hcached : (cachedDecision user name).Asks P :=
    asks_cachedDecision (fun role => (h.role role).item.get) (fun role => (h.role role).item.delete)
      ⟨h.rolesItem.get, h.rowsItem.get⟩ ⟨h.rolesItem.delete, h.rowsItem.delete⟩ name
  unfold isGranted
  split
  · refine Asks.run_bind hcached.run_lift fun decision? => ?_
    cases decision? with
    | some decision => exact asks_run_pure _
    | none => exact Asks.run_bind (asks_resolveUser h) fun _ => asks_run_pure _
  · exact asks_run_pure _

theorem asks_requirePermission (h : AllowsDecisions P user) (name : String) :
    (requirePermission d user name).run.Asks P := by
  have hheld : (hasPermission d user name).run.Asks P :=
    Asks.run_bind (asks_run_check _) fun _ => asks_isGranted h name
  exact Asks.run_bind hheld fun _ => asks_run_check _

end AccessControl.Authorization
