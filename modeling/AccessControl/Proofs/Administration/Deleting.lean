import AccessControl.Proofs.Administration.Requested
import AccessControl.Proofs.Administration.Overriding
import AccessControl.Proofs.Services.InOrder

/-! # A deleted role leaves no trace

The store removes a role with its rows and takes it from every user, and answers with the users who
had it, so that what is cached of their roles can be removed as well.  What is stored afterwards is
what was stored before without the role (`Store.userHas_of_deleteRole_iff`), and a cached set of the
role would not be right for the store, so there is none (`Deleted`).
-/
namespace AccessControl

namespace Store
variable {s s' : Store} {role other : RoleId} {user : UserId} {users : List UserId} {name : String}

/-- **A role can be deleted if it is there.** -/
theorem deleteRole_ok_iff :
    (∃ users s', s.deleteRole role = .ok (users, s')) ↔
      ∃ record, s.findRole role = some record := by
  rw [deleteRole, findRole, ← Table.contains_iff]
  split
  · rename_i hexists
    exact iff_of_true ⟨_, _, rfl⟩ hexists
  · rename_i hmissing
    refine iff_of_false ?_ hmissing
    rintro ⟨users, s', h⟩
    cases h

/-- **What a deletion has removed**: the role and its rows. -/
theorem gone_of_deleteRole (h : s.deleteRole role = .ok (users, s')) :
    s'.findRole role = none ∧ s'.roleGrants.contains role = false := by
  constructor
  · rw [findRole_deleteRole h, if_pos rfl]
  · obtain ⟨-, rfl⟩ := deleteRole_ok h
    rw [Table.contains_erase, decide_eq_true rfl, Bool.not_true, Bool.false_and]

/-- Every other role is the same with the same rows. -/
theorem sameRole_deleteRole (h : s.deleteRole role = .ok (users, s')) (hother : other ≠ role) :
    s.SameData s' (.rolePermissions other) :=
  sameData_deleteRole h (.rolePermissions other) (by simpa using hother) (by simp)

/-- **What a user has by the rows of the user and by all roles of the user but one.** -/
def HasWithout (s : Store) (role : RoleId) (user : UserId) (name : String) : Prop :=
  ⟨name, false⟩ ∉ s.grantsOfUser user ∧
    (⟨name, true⟩ ∈ s.grantsOfUser user ∨
      ∃ other ∈ s.rolesOfUser user, other ≠ role ∧ s.RoleGives other name)

/-- **After a deletion a user has what the user had without the role.** -/
theorem userHas_of_deleteRole_iff (h : s.deleteRole role = .ok (users, s')) :
    s'.UserHas user name ↔ s.HasWithout role user name := by
  rw [UserHas, grantsOfUser_deleteRole h, HasWithout]
  refine and_congr_right fun _ => or_congr_right ?_
  simp only [rolesOfUser_deleteRole h, List.mem_filter, decide_eq_true_eq, and_assoc]
  refine exists_congr fun other => and_congr_right fun _ => and_congr_right fun hother => ?_
  exact roleGives_of_sameData (sameRole_deleteRole h hother)

end Store

namespace Administration
open World Outside Program Authorization Services
variable {d : Deployment} {actor : UserId} {role : RoleId} {w w' : World}

/-! ## What is written -/

theorem ensures_forgetRolesOf (users : List UserId) :
    lossy.Ensures (forgetRolesOf users) w fun _ v => v.store = w.store := by
  induction users generalizing w with
  | nil =>
    rw [forgetRolesOf, ensures_pure]
  | cons user users ih =>
    rw [forgetRolesOf, ensures_bind]
    refine ensures_remove rfl fun v hv _ => ?_
    exact ih.mono fun _ u hu => hu.trans hv.store

/-- **A deletion is decided by whether the role is there.** -/
theorem ensures_deleteRole (hw : w.Coherent d.catalog) :
    lossy.Ensures (deleteRole d actor role).run w
      (Decided (Permission.deleteRoles ∈ w.store.permissions d.catalog actor ∧
          ∃ record, w.store.findRole role = some record)
        (fun _ s' => ∃ users, w.store.deleteRole role = .ok (users, s')) w.store) := by
  refine ensures_gated hw fun v hv => ?_
  rw [ensures_run_bind]
  refine ensures_writeGiving (fun _ => ensures_stored (r := .deleteRole role) rfl)
    (fun m users hdeleted => ?_) fun m failure hrefused hm => ?_
  · dsimp only
    rw [ensures_run_bind, ensures_run_lift]
    refine ensures_remove rfl fun n hn _ => ?_
    dsimp only
    rw [ensures_run_lift]
    refine (ensures_forgetRolesOf users).mono fun _ u hu => ?_
    rw [hv, ← hn.store, ← hu] at hdeleted
    exact .inl ⟨Store.deleteRole_ok_iff.mp ⟨users, _, hdeleted⟩, (), rfl, users, hdeleted⟩
  · rw [hv] at hrefused hm
    refine .inr ⟨fun hexists => ?_, ⟨failure, rfl⟩, hm⟩
    obtain ⟨users, s', hdeleted⟩ := Store.deleteRole_ok_iff.mpr hexists
    exact nomatch hrefused.symm.trans hdeleted

/-! ## What is left -/

/-- **Two worlds, of which in the second a role has been deleted.** -/
structure Deleted (d : Deployment) (role : RoleId) (w w' : World) : Prop where
  /-- The role is not there, and it has no rows. -/
  gone : w'.store.findRole role = none ∧ w'.store.roleGrants.contains role = false
  /-- Everybody keeps all roles but this one, which nobody has. -/
  assignments : ∀ user, w'.store.rolesOfUser user =
    (w.store.rolesOfUser user).filter (fun other => other ≠ role)
  unassigned : ∀ user, role ∉ w'.store.rolesOfUser user
  /-- No value that is cached for the role stands for a set. -/
  uncached : ∀ value, w'.Holds (.rolePermissions role) value →
    Json.decode? (α := Cached.RolePermissions) value = none
  /-- Whoever resolves the role is told that there is no such role. -/
  resolved : lossy.Yields (resolveRole d role).run w' fun r _ => r = .error (Role.missing role)
  /-- The users whom the store has answered with are those who had the role, in ascending order,
  each once. -/
  affected : ∃ users, w.store.deleteRole role = .ok (users, w'.store) ∧
    (∀ user, user ∈ users ↔ role ∈ w.store.rolesOfUser user) ∧
    users.Pairwise fun a b => a.number < b.number
  /-- Every decision about a user follows from the rows and the other roles of the user. -/
  decided : ∀ user name, lossy.Yields (isGranted d user name).run w' fun r _ =>
    ∃ has : Bool, r = .ok has ∧
      (has = true ↔ name ∈ d.catalog.nameList ∧ w.store.HasWithout role user name)
  /-- Every other role is there as before, with the same rows. -/
  others : ∀ other, other ≠ role → w'.store.findRole other = w.store.findRole other ∧
    w'.store.roleGrants.find? other = w.store.roleGrants.find? other
  /-- The rows and the stamps of users and the records of tokens are as before. -/
  overrides : ∀ user, w'.store.grantsOfUser user = w.store.grantsOfUser user
  stamps : ∀ user, w'.store.stampOf user = w.store.stampOf user
  tokens : w'.store.tokens = w.store.tokens

theorem deleted_of_deleteRole {users : List UserId} (horder : w.store.InOrder)
    (hw' : w'.Coherent d.catalog) (h : w.store.deleteRole role = .ok (users, w'.store)) :
    Deleted d role w w' := by
  have hgone := Store.gone_of_deleteRole h
  have hset : w'.store.roleSet d.catalog role = none := by
    rw [Store.roleSet, hgone.1, Option.map_none]
  obtain ⟨rfl, hstore⟩ := Store.deleteRole_ok h
  refine ⟨hgone, Store.rolesOfUser_deleteRole h, fun user => ?_, fun value hheld => ?_, ?_,
    ⟨_, h, fun _ => Store.mem_usersWith, horder.usersWith role⟩, fun user name => ?_,
    fun other hother => ?_, Store.grantsOfUser_deleteRole h, Store.stampOf_deleteRole h, ?_⟩
  · simp [Store.rolesOfUser_deleteRole h]
  · -- A set would have to be that of the role, which has none.
    refine Option.eq_none_iff_forall_ne_some.mpr fun item hitem => ?_
    have hright := hw' (.rolePermissions role) value id hheld item hitem
    rw [hset] at hright
    cases hright
  · refine yields_of_ensures (ensures_resolveRole_eq.mono fun r _ hr => ?_)
    rw [hr, hset]
  · refine yields_of_ensures ((ensures_isGranted hw' name).mono fun r _ hr => ⟨_, hr.1, ?_⟩)
    rw [SortedSet.contains_iff, Store.mem_permissions_iff, Store.userHas_of_deleteRole_iff h]
  · rw [hstore]
    exact ⟨(Table.find?_erase ..).trans (if_neg hother),
      (Table.find?_erase ..).trans (if_neg hother)⟩
  · rw [hstore]

/-- **A deleted role leaves no trace.**  In every world that the services lead to, a deletion
succeeds if and only if the one who asks may do so and the role is there.  Then the role is gone
with its rows and with whatever was cached of it, nobody has it, and the users whom the store
reports are exactly those who had it, in ascending order; every decision about a user follows from
what the user has without the role, even if it is answered from the cache, and everything else that
is stored is as before.  A deletion that fails leaves the store as it was. -/
theorem deletion_leaves_no_trace (h : ReachableInOrder d w) (actor : UserId) (role : RoleId) :
    lossy.Yields (deleteRole d actor role).run w fun r w' =>
      (r = .ok () ↔ Authorized d actor Permission.deleteRoles w ∧
        ∃ record, w.store.findRole role = some record) ∧
      (r = .ok () → Deleted d role w w') ∧ FailsClean w.store r w' := by
  have hw := h.reachable.coherent
  refine yields_of_ensures fun t r w' ht hf => ?_
  have hdecided := ensures_deleteRole hw t r w' ht hf
  have hw' : w'.Coherent d.catalog :=
    keeps_of_keepsOrder (fun _ => rfl) (keepsOrder_deleteRole actor) w hw _ _ _ ht hf
  have hsuccess := (hdecided.of_iff (and_congr_left fun _ =>
    ⟨Authorized.mem, authorized_of_mem h.reachable⟩)).ok_unit_iff
  refine ⟨hsuccess, ?_, hdecided.failsClean⟩
  rintro rfl
  obtain ⟨users, hdeleted⟩ := hdecided.written_of_ok
  exact deleted_of_deleteRole h.inOrder hw' hdeleted

/-- A deployment whose catalog has the permission to delete roles. -/
def pruning : Deployment :=
  ⟨.single ⟨⟨Permission.deleteRoles⟩, ⟨"Delete role"⟩, ⟨"Roles"⟩⟩, 60, {}⟩

/-- The only user deletes the role that gives everything, and has nothing then. -/
theorem deletion_leaves_no_trace_of_admins :
    ReachableInOrder pruning oneAdmin ∧
      lossy.Yields (deleteRole pruning ⟨1⟩ ⟨1⟩).run oneAdmin (fun r w' => r = .ok () ∧
        Deleted pruning ⟨1⟩ oneAdmin w' ∧
        lossy.Yields (isGranted pruning ⟨1⟩ Permission.deleteRoles).run w'
          (fun r _ => r = .ok false)) := by
  have hreachable : ReachableInOrder pruning oneAdmin := .of_oneAdmin
  have hactor : Authorized pruning ⟨1⟩ Permission.deleteRoles oneAdmin :=
    authorized_of_mem hreachable.reachable (by decide +kernel)
  refine ⟨hreachable, (deletion_leaves_no_trace hreachable ⟨1⟩ ⟨1⟩).mono fun r w' hr => ?_⟩
  have hok := hr.1.mpr ⟨hactor, ⟨⟨1⟩, "Admin", "Admin", true⟩, by decide +kernel⟩
  have hdeleted := hr.2.1 hok
  refine ⟨hok, hdeleted, (hdeleted.decided ⟨1⟩ _).mono fun r _ hr => ?_⟩
  obtain ⟨has, rfl, hhas⟩ := hr
  have hnot : has = false := by
    refine Bool.eq_false_iff.mpr fun htrue => ?_
    obtain ⟨-, -, hgiven | ⟨other, hassigned, hother, -⟩⟩ := hhas.mp htrue
    · revert hgiven
      decide +kernel
    · have hroles : oneAdmin.store.rolesOfUser ⟨1⟩ = [⟨1⟩] := by decide +kernel
      rw [hroles, List.mem_singleton] at hassigned
      exact hother hassigned
  rw [hnot]

end Administration
end AccessControl
