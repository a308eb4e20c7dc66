import AccessControl.Proofs.Administration.Coherence
import AccessControl.Proofs.Authorization.Coherence

/-! # Decisions are never stale

A history is a sequence of calls to the services, of which each may succeed or fail, with any
drift of the world between them.  It begins with an empty cache.  Since the empty cache is
coherent and every call keeps the cache coherent, a decision made after any history is the one
that follows from what is stored at that time.
-/
namespace AccessControl.Administration
open World Authorization

/-- A call to one of the services that resolve, decide or administer. -/
inductive Call where
  | resolveRole (role : RoleId)
  | resolveUser (user : UserId)
  | isGranted (user : UserId) (name : String)
  | hasPermission (user : UserId) (name : String)
  | requirePermission (user : UserId) (name : String)
  | listGranted (user : UserId)
  | createRole (actor : UserId) (name displayName : String) (granted : List String)
  | renameRole (actor : UserId) (role : RoleId) (name displayName : String)
  | setRolePermissions (actor : UserId) (role : RoleId) (granted : List String)
  | deleteRole (actor : UserId) (role : RoleId)
  | setUserPermissions (actor user : UserId) (changes : List Grant)
  | setUserGrantedPermissions (actor user : UserId) (granted : List String)
  | resetUserPermissions (actor user : UserId)
  | setUserRoles (actor user : UserId) (roles : List RoleId)

namespace Call

/-- What a call results in if it succeeds. -/
def Result : Call → Type
  | .resolveRole _ => NameSet
  | .resolveUser _ => NameSet
  | .isGranted _ _ => Bool
  | .hasPermission _ _ => Bool
  | .requirePermission _ _ => Unit
  | .listGranted _ => List PermissionDefinition
  | .createRole _ _ _ _ => Role
  | .renameRole _ _ _ _ => Role
  | .setRolePermissions _ _ _ => Unit
  | .deleteRole _ _ => Unit
  | .setUserPermissions _ _ _ => Unit
  | .setUserGrantedPermissions _ _ _ => Unit
  | .resetUserPermissions _ _ => Unit
  | .setUserRoles _ _ _ => Unit

/-- The service that is called. -/
def service (d : Deployment) : (c : Call) → Service c.Result
  | .resolveRole role => Authorization.resolveRole d role
  | .resolveUser user => Authorization.resolveUser d user
  | .isGranted user name => Authorization.isGranted d user name
  | .hasPermission user name => Authorization.hasPermission d user name
  | .requirePermission user name => Authorization.requirePermission d user name
  | .listGranted user => Authorization.listGranted d user
  | .createRole actor name displayName granted =>
    Administration.createRole d actor name displayName granted
  | .renameRole actor role name displayName =>
    Administration.renameRole d actor role name displayName
  | .setRolePermissions actor role granted =>
    Administration.setRolePermissions d actor role granted
  | .deleteRole actor role => Administration.deleteRole d actor role
  | .setUserPermissions actor user changes =>
    Administration.setUserPermissions d actor user changes
  | .setUserGrantedPermissions actor user granted =>
    Administration.setUserGrantedPermissions d actor user granted
  | .resetUserPermissions actor user => Administration.resetUserPermissions d actor user
  | .setUserRoles actor user roles => Administration.setUserRoles d actor user roles

/-- **Every call keeps to the order**, however it is answered. -/
theorem keepsOrder (d : Deployment) (c : Call) : KeepsOrder d.catalog (c.service d) := by
  cases c with
  | resolveRole role => exact keepsOrder_resolveRole
  | resolveUser user => exact keepsOrder_resolveUser
  | isGranted user name => exact keepsOrder_isGranted name
  | hasPermission user name => exact keepsOrder_hasPermission name
  | requirePermission user name => exact keepsOrder_requirePermission user name
  | listGranted user => exact keepsOrder_listGranted
  | createRole actor name displayName granted =>
    exact keepsOrder_createRole actor name displayName granted
  | renameRole actor role name displayName => exact keepsOrder_renameRole actor name displayName
  | setRolePermissions actor role granted => exact keepsOrder_setRolePermissions actor granted
  | deleteRole actor role => exact keepsOrder_deleteRole actor
  | setUserPermissions actor user changes => exact keepsOrder_setUserPermissions actor changes
  | setUserGrantedPermissions actor user granted =>
    exact keepsOrder_setUserGrantedPermissions actor granted
  | resetUserPermissions actor user => exact keepsOrder_resetUserPermissions actor
  | setUserRoles actor user roles => exact keepsOrder_setUserRoles actor roles

/-- **Every call keeps the cache right**, whether it succeeds or fails. -/
theorem keeps {mayFail : Backend.Request → Bool} (hremove : RemovalsHold mayFail) (d : Deployment)
    (c : Call) : Keeps mayFail d.catalog (c.service d) :=
  keeps_of_keepsOrder hremove (c.keepsOrder d)

end Call

/-- **The worlds that a history leads to**: calls one after the other, and drifts at any
time. -/
inductive History (d : Deployment) (start : World) : World → Prop where
  | start : History d start start
  /-- The cache loses or spoils values, and time passes. -/
  | drift {w w' : World} (h : History d start w) (hw : Drifts w w') : History d start w'
  /-- One more call has ended. -/
  | call {w w' : World} (h : History d start w) (c : Call) {t : List (Exchange Backend)}
      {r : Except Failure c.Result} (ht : (c.service d).run.Transcript t r)
      (hf : lossy.Follows w t w') : History d start w'

namespace History
variable {d : Deployment} {start w : World}

/-- A call that is run without faults continues a history. -/
theorem run (h : History d start w) (c : Call) :
    History d start (World.run (c.service d).run w).2 :=
  h.call c (transcript_exchanges _ w) (follows_exchanges _ w)

/-- **A history that begins with an empty cache only leads to coherent worlds.** -/
theorem coherent (h : History d start w) (hstart : start.cache.entries = ∅) :
    w.Coherent d.catalog := by
  induction h with
  | start => exact coherent_of_empty hstart
  | drift h hw ih => exact ih.refills (.of_drifts hw)
  | call h c ht hf ih => exact c.keeps (fun _ => rfl) d _ ih _ _ _ ht hf

/-- **Decisions are never stale.**  After any history, a user is said to have a permission
exactly if it is among those that a full resolution of what is stored gives; both calls end
in a result, however the cache behaves. -/
theorem isGranted_iff_mem_resolved (h : History d start w) (hstart : start.cache.entries = ∅)
    (user : UserId) :
    ∃ held : NameSet,
      lossy.Yields (Authorization.resolveUser d user).run w (fun r _ => r = .ok held) ∧
      ∀ name, lossy.Yields (Authorization.isGranted d user name).run w
        (fun r _ => ∃ granted, r = .ok granted ∧ (granted = true ↔ name ∈ held)) := by
  refine ⟨w.store.permissions d.catalog user, yields_of_ensures ?_, fun name =>
    yields_of_ensures ?_⟩
  · exact Authorization.ensures_resolveUser.mono fun _ _ hr => hr.1
  · refine (Authorization.ensures_isGranted (h.coherent hstart) name).mono fun _ _ hr => ?_
    exact ⟨_, hr.1, SortedSet.contains_iff⟩

/-- A deployment whose catalog has nothing but the permission to edit users. -/
def deployment : Deployment :=
  ⟨.single ⟨⟨Permission.editUsers⟩, ⟨"Edit user"⟩, ⟨"Users"⟩⟩, 60, {}⟩

/-- A world with a user who may edit users because of a role. -/
def oneEditor : World :=
  World.ofStore { Store.empty with
    roles := Table.empty.insert ⟨1⟩ ⟨⟨1⟩, "Staff", "Staff", false⟩
    roleGrants := Table.empty.insert ⟨1⟩ [Grant.granting Permission.editUsers]
    users := Table.empty.insert ⟨1⟩ ⟨"alice", ⟨.repeating 0⟩, [⟨1⟩], []⟩ }

/-- The user gives the role up, which the user may as long as the role is there. -/
def giveRoleUp : Except Failure Unit × World :=
  World.run (setUserRoles deployment ⟨1⟩ ⟨1⟩ []).run oneEditor

/-- A user gives up the role that everything followed from, and is then asked about. -/
theorem isGranted_iff_mem_resolved_after_setUserRoles :
    giveRoleUp.1 = .ok () ∧
      ∃ held : NameSet,
        lossy.Yields (Authorization.resolveUser deployment ⟨1⟩).run giveRoleUp.2
          (fun r _ => r = .ok held) ∧
        ∀ name, lossy.Yields (Authorization.isGranted deployment ⟨1⟩ name).run giveRoleUp.2
          (fun r _ => ∃ granted, r = .ok granted ∧ (granted = true ↔ name ∈ held)) := by
  have hhistory : History deployment oneEditor giveRoleUp.2 :=
    start.run (.setUserRoles ⟨1⟩ ⟨1⟩ [])
  exact ⟨rfl, isGranted_iff_mem_resolved hhistory rfl ⟨1⟩⟩

end History
end AccessControl.Administration
