import AccessControl.Proofs.Administration.Renaming
import AccessControl.Proofs.Services.Authorized

/-! # Roles hold what was requested

The rows that are written for a requested list of permissions depend on the kind of the role, and a
resolution depends on the rows and on the kind.  The two are inverse to each other
(`Role.effective_rowsHolding`), so once a role was created or set with a list, it resolves to that
list, whatever its kind (`MadeToHold`).
-/
namespace AccessControl

namespace Store
variable {s s' : Store} {catalog : Catalog} {role : RoleId} {name : String}

/-- **A name that no stored role has.** -/
def Unused (s : Store) (name : String) : Prop :=
  ∀ role record, s.findRole role = some record → record.name ≠ name

theorem unused_iff : s.Unused name ↔ ∀ stored ∈ s.roles.values, stored.name ≠ name := by
  constructor
  · intro h stored hstored
    obtain ⟨e, he, rfl⟩ := List.mem_map.mp hstored
    exact h e.1 e.2 (Table.find?_eq_some_iff.mpr he)
  · exact fun h role record hrecord => h record (Table.mem_values_of_find? hrecord)

/-- **A role is stored if its name is unused and a number is left.** -/
theorem createRole_ok_iff {new : NewRole} :
    (∃ record s', s.createRole new = .ok (record, s')) ↔
      s.Unused new.name ∧ s.lastRole < Int64.maxValue := by
  rw [unused_iff, createRole]
  by_cases hfree : ∀ stored ∈ s.roles.values, stored.name ≠ new.name
  · rw [failIf_of_not (by simpa using hfree), next]
    by_cases hleft : s.lastRole < Int64.maxValue
    · rw [if_pos hleft]
      exact iff_of_true ⟨_, _, rfl⟩ ⟨hfree, hleft⟩
    · rw [if_neg hleft]
      refine iff_of_false ?_ fun h => hleft h.2
      rintro ⟨record, s', h⟩
      cases h
  · rw [failIf_of (by simpa using hfree)]
    refine iff_of_false ?_ fun h => hfree h.1
    rintro ⟨record, s', h⟩
    cases h

theorem replaceRoleGrants_of_findRole {record : Role} (h : s.findRole role = some record)
    (grants : List Grant) : ∃ s', s.replaceRoleGrants role grants = .ok s' :=
  ⟨_, if_pos (Table.contains_of_find? h)⟩

/-- A new role is what was to be stored, with its rows. -/
theorem createRole_stored {new : NewRole} {record : Role}
    (h : s.createRole new = .ok (record, s')) :
    (record.name = new.name ∧ record.isPrivileged = new.isPrivileged) ∧
      s'.findRole record.id = some record ∧ s'.grantsOfRole record.id = new.grants := by
  obtain ⟨⟨-, number, -, rfl⟩, rfl⟩ := createRole_ok h
  simp [findRole, grantsOfRole, Table.find?_insert]

/-- Whoever has a role has one that is stored. -/
theorem not_mem_rolesOfUser (hs : s.Sound) (h : s.findRole role = none) (user : UserId) :
    role ∉ s.rolesOfUser user := by
  intro hassigned
  rw [rolesOfUser] at hassigned
  cases hstored : s.users.find? user with
  | none => simp [hstored] at hassigned
  | some stored =>
    rw [hstored] at hassigned
    have hexists := hs.rolesExist user stored hstored role hassigned
    obtain ⟨record, hrecord⟩ := Table.contains_iff.mp hexists
    rw [findRole, hrecord] at h
    cases h

/-- A new role gets a number that no role had. -/
theorem findRole_of_createRole {new : NewRole} {record : Role} (hs : s.Sound)
    (h : s.createRole new = .ok (record, s')) : s.findRole record.id = none := by
  cases hfind : s.findRole record.id with
  | none => rfl
  | some stored =>
    obtain ⟨⟨-, number, hnumber, rfl⟩, -⟩ := createRole_ok h
    have hgiven := (hs.roleNumbers _ (Table.contains_of_find? hfind)).2
    exact absurd (lt_of_next hnumber) (Int64.not_lt.mpr hgiven)

end Store

namespace Administration
open World Outside Authorization Services
variable {α : Type} {d : Deployment} {actor : UserId} {role : RoleId} {granted : List String}
  {w w' : World}

/-! ## What is written -/

theorem ensures_existingRole :
    lossy.Ensures (existingRole role).run w fun r v => v.store = w.store ∧
      r = match w.store.findRole role with
        | some record => .ok record
        | none => .error (Role.missing role) := by
  rw [existingRole, ensures_run_bind]
  refine ensures_stored (r := .findRole role) rfl fun v hv => ?_
  show lossy.Ensures (match v.store.findRole role with
    | some record => pure record
    | none => throw (Role.missing role) : Service Role).run v _
  rw [hv.store]
  cases w.store.findRole role with
  | some record => exact ensures_run_pure.mpr ⟨hv.store, rfl⟩
  | none => exact ensures_run_throw.mpr ⟨hv.store, rfl⟩

/-- **A setting of permissions is decided by the names and by whether the role exists**, and writes
rows for the kind of the role. -/
theorem ensures_setRolePermissions (hw : w.Coherent d.catalog) :
    lossy.Ensures (setRolePermissions d actor role granted).run w
      (Decided (Permission.editRoles ∈ w.store.permissions d.catalog actor ∧
          (∀ name ∈ granted, name ∈ d.catalog.nameList) ∧
          ∃ record, w.store.findRole role = some record)
        (fun _ s' => ∃ record, w.store.findRole role = some record ∧
          w.store.replaceRoleGrants role
            (rowsHolding d.catalog record.isPrivileged (.ofList granted)) = .ok s') w.store) := by
  refine ensures_gated hw fun v hv => ?_
  refine ensures_checked hv Catalog.ensureKnown_ofList_iff fun _ => ?_
  rw [ensures_run_bind]
  refine ensures_existingRole.mono fun r m hr => ?_
  obtain ⟨hm, rfl⟩ := hr
  rw [hv] at hm ⊢
  cases hrecord : w.store.findRole role with
  | none => exact .inr ⟨fun h => by simp at h, ⟨_, rfl⟩, hm⟩
  | some record =>
    dsimp only
    rw [ensures_run_bind]
    refine ensures_write (fun _ => ensures_stored (r := .replaceRoleGrants role _) rfl)
      (fun v hwritten => ?_) fun v failure hrefused _ => ?_
    · dsimp only
      rw [ensures_run_lift]
      refine ensures_remove rfl fun _ hremoved _ => .inl ⟨⟨record, rfl⟩, (), rfl, ?_⟩
      exact ⟨record, rfl, hremoved.store ▸ hm ▸ hwritten⟩
    · obtain ⟨s', hwritten⟩ := Store.replaceRoleGrants_of_findRole hrecord
        (rowsHolding d.catalog record.isPrivileged (.ofList granted))
      rw [hm, hwritten] at hrefused
      cases hrefused

/-- The role that is stored when one is requested. -/
def requestedRole (d : Deployment) (name displayName : String) (granted : List String) : NewRole where
  name := trim name
  displayName := if (trim displayName).isEmpty then trim name else trim displayName
  isPrivileged := Role.isPrivilegedName (trim name)
  grants := rowsHolding d.catalog (Role.isPrivilegedName (trim name)) (.ofList granted)

/-- **A creation of a role is decided by the names and by what is stored.** -/
theorem ensures_createRole {name displayName : String} (hw : w.Coherent d.catalog) :
    lossy.Ensures (createRole d actor name displayName granted).run w
      (Decided (Permission.createRoles ∈ w.store.permissions d.catalog actor ∧
          trim name ≠ "" ∧ (∀ name ∈ granted, name ∈ d.catalog.nameList) ∧
          w.store.Unused (trim name) ∧ w.store.lastRole < Int64.maxValue)
        (fun record s' =>
          w.store.createRole (requestedRole d name displayName granted) = .ok (record, s'))
        w.store) := by
  have hnamed : failIf ((trim name).isEmpty = true)
      (Failure.validation "role name must not be empty") = .ok () ↔ trim name ≠ "" := by
    rw [failIf_eq_ok_iff, String.isEmpty_iff]
  refine ensures_gated hw fun v hv => ?_
  refine ensures_checked hv hnamed fun _ => ?_
  refine ensures_checked hv Catalog.ensureKnown_ofList_iff fun _ => ?_
  rw [ensures_run_bind]
  refine ensures_writeGiving (fun _ => ensures_stored (r := .createRole _) rfl)
    (fun m record hcreated => ?_) fun m failure hrefused hm => ?_
  · dsimp only
    rw [ensures_run_bind, ensures_run_lift]
    refine ensures_remove rfl fun _ hremoved _ => ?_
    dsimp only
    rw [ensures_run_pure]
    rw [hv] at hcreated
    exact .inl ⟨Store.createRole_ok_iff.mp ⟨_, _, hcreated⟩, record, rfl,
      hremoved.store ▸ hcreated⟩
  · rw [hv] at hrefused hm
    refine .inr ⟨fun h => ?_, ⟨failure, rfl⟩, hm⟩
    have hfree : w.store.Unused (requestedRole d name displayName granted).name ∧ _ := h
    obtain ⟨record, s', hcreated⟩ := Store.createRole_ok_iff.mpr hfree
    exact nomatch hrefused.symm.trans hcreated

/-! ## Roles that hold what was requested -/

/-- **What a user has once a role holds a list of permissions**: no row of the user prohibits it,
and a row of the user gives it, or the user has the role and it is in the list, or another role of
the user gives it. -/
def Implied (d : Deployment) (role : RoleId) (granted : List String) (s : Store) (user : UserId)
    (name : String) : Prop :=
  name ∈ d.catalog.nameList ∧ ⟨name, false⟩ ∉ s.grantsOfUser user ∧
    (⟨name, true⟩ ∈ s.grantsOfUser user ∨ (role ∈ s.rolesOfUser user ∧ name ∈ granted) ∨
      ∃ other ∈ s.rolesOfUser user, other ≠ role ∧ s.RoleGives other name)

/-- **Two worlds, of which in the second a role has been made to hold a list of permissions.** -/
structure MadeToHold (d : Deployment) (role : RoleId) (granted : List String) (w w' : World) :
    Prop where
  /-- The role resolves to the set of the list. -/
  resolved : lossy.Yields (resolveRole d role).run w' fun r _ =>
    ∃ held : NameSet, r = .ok held ∧ ∀ name, name ∈ held ↔ name ∈ granted
  /-- Every other role resolves as before. -/
  others : ∀ other, other ≠ role → ∃ answer : Except Failure NameSet,
    lossy.Yields (resolveRole d other).run w (fun r _ => r = answer) ∧
    lossy.Yields (resolveRole d other).run w' (fun r _ => r = answer)
  /-- Every user has the same roles. -/
  assignments : ∀ user, w'.store.rolesOfUser user = w.store.rolesOfUser user
  /-- Every user has the same rows. -/
  overrides : ∀ user, w'.store.grantsOfUser user = w.store.grantsOfUser user
  /-- Every decision about a user is what the new set implies. -/
  decided : ∀ user name, lossy.Yields (isGranted d user name).run w' fun r _ =>
    ∃ has : Bool, r = .ok has ∧ (has = true ↔ Implied d role granted w.store user name)
  /-- Every user resolves to what the new set implies. -/
  users : ∀ user, lossy.Yields (resolveUser d user).run w' fun r _ =>
    ∃ held : NameSet, r = .ok held ∧ ∀ name, name ∈ held ↔ Implied d role granted w.store user name

/-- If the role holds the set of the list and all other data are the same, a user has what the list
implies. -/
theorem mem_permissions_iff_implied {s s' : Store} {user : UserId} {name : String}
    (hset : s'.roleSet d.catalog role = some (.ofList granted))
    (hframe : ∀ key, key ≠ .rolePermissions role → s.SameData s' key) :
    name ∈ s'.permissions d.catalog user ↔ Implied d role granted s user name := by
  have hroles : s'.rolesOfUser user = s.rolesOfUser user := hframe (.userRoles user) (by simp)
  have hrows : s'.grantsOfUser user = s.grantsOfUser user :=
    hframe (.userPermissions user) (by simp)
  rw [Store.mem_permissions_iff, Store.UserHas, Implied, hroles, hrows]
  refine and_congr_right fun hname => and_congr_right fun _ => or_congr_right ?_
  have hgives : s'.RoleGives role name ↔ name ∈ granted := by
    have hheld : name ∈ SortedSet.ofList granted ↔
        d.catalog.contains name = true ∧ s'.RoleGives role name := Store.mem_roleSet_iff hset
    rw [SortedSet.mem_ofList, and_iff_right (Catalog.contains_iff.mpr hname)] at hheld
    exact hheld.symm
  have hothers : ∀ other, other ≠ role → (s'.RoleGives other name ↔ s.RoleGives other name) := by
    intro other hother
    exact Store.roleGives_of_sameData (hframe (.rolePermissions other) (by simpa using hother))
  constructor
  · rintro ⟨other, hassigned, hother⟩
    by_cases heq : other = role
    · subst heq
      exact .inl ⟨hassigned, hgives.mp hother⟩
    · exact .inr ⟨other, hassigned, heq, (hothers other heq).mp hother⟩
  · rintro (⟨hassigned, hlisted⟩ | ⟨other, hassigned, heq, hother⟩)
    · exact ⟨role, hassigned, hgives.mpr hlisted⟩
    · exact ⟨other, hassigned, (hothers other heq).mpr hother⟩

/-- **A role whose data alone have changed, and whose set is now that of a list, has been made to
hold the list.** -/
theorem madeToHold_of_sameData (hw' : w'.Coherent d.catalog)
    (hset : w'.store.roleSet d.catalog role = some (.ofList granted))
    (hframe : ∀ key, key ≠ .rolePermissions role → w.store.SameData w'.store key) :
    MadeToHold d role granted w w' where
  resolved := yields_of_ensures (ensures_resolveRole_eq.mono fun r _ hr => by
    rw [hset] at hr
    exact ⟨_, hr, fun name => SortedSet.mem_ofList⟩)
  others other hother :=
    resolveRole_alike (hframe (.rolePermissions other) (by simpa using hother)).agrees
  assignments user := hframe (.userRoles user) (by simp)
  overrides user := hframe (.userPermissions user) (by simp)
  decided user name := yields_of_ensures ((ensures_isGranted hw' name).mono fun r _ hr => by
    refine ⟨_, hr.1, ?_⟩
    rw [SortedSet.contains_iff, mem_permissions_iff_implied hset hframe])
  users user := yields_of_ensures (ensures_resolveUser.mono fun r _ hr =>
    ⟨_, hr.1, fun name => mem_permissions_iff_implied hset hframe⟩)

/-- Rows that are written for a list make a role of their kind hold the list. -/
theorem madeToHold_of_replaceRoleGrants {record : Role} (hw' : w'.Coherent d.catalog)
    (hknown : ∀ name ∈ granted, name ∈ d.catalog.nameList)
    (hrecord : w.store.findRole role = some record)
    (h : w.store.replaceRoleGrants role
      (rowsHolding d.catalog record.isPrivileged (.ofList granted)) = .ok w'.store) :
    MadeToHold d role granted w w' := by
  refine madeToHold_of_sameData hw' ?_ fun key hkey => Store.sameData_replaceRoleGrants h key hkey
  rw [Store.roleSet, Store.findRole_replaceRoleGrants h, hrecord, Option.map_some,
    Store.grantsOfRole_replaceRoleGrants h]
  refine congrArg some (Role.effective_rowsHolding fun name hname => ?_)
  exact Catalog.contains_iff.mpr (hknown name (SortedSet.mem_ofList.mp hname))

/-- **Two worlds, of which in the second a role is new that holds a list of permissions.** -/
structure Created (d : Deployment) (record : Role) (name : String) (granted : List String)
    (w w' : World) : Prop extends MadeToHold d record.id granted w w' where
  named : record.name = trim name
  /-- It is privileged if its name is that of privileged roles in whatever case. -/
  kind : record.isPrivileged = true ↔ (trim name).toList.map Char.toLower = "admin".toList
  /-- It is stored under a number that no role had. -/
  stored : w'.store.findRole record.id = some record
  isNew : w.store.findRole record.id = none
  /-- Nobody has it yet. -/
  unassigned : ∀ user, record.id ∉ w'.store.rolesOfUser user

theorem created_of_createRole {name displayName : String} {record : Role} (hs : w.store.Sound)
    (hw' : w'.Coherent d.catalog) (hknown : ∀ name ∈ granted, name ∈ d.catalog.nameList)
    (h : w.store.createRole (requestedRole d name displayName granted) = .ok (record, w'.store)) :
    Created d record name granted w w' := by
  have hframe : ∀ key, key ≠ .rolePermissions record.id → w.store.SameData w'.store key :=
    fun key hkey => Store.sameData_createRole h key hkey
  have hnew := Store.findRole_of_createRole hs h
  obtain ⟨⟨hname, hkind⟩, hstored, hrows⟩ := Store.createRole_stored h
  have hset : w'.store.roleSet d.catalog record.id = some (.ofList granted) := by
    rw [Store.roleSet, hstored, Option.map_some, hrows]
    have hrowsFor : (requestedRole d name displayName granted).grants =
        rowsHolding d.catalog record.isPrivileged (.ofList granted) := by
      rw [hkind, requestedRole]
    rw [hrowsFor, Role.effective_rowsHolding]
    intro name hname
    exact Catalog.contains_iff.mpr (hknown name (SortedSet.mem_ofList.mp hname))
  have hmade := madeToHold_of_sameData hw' hset hframe
  refine { hmade with named := hname, kind := ?_, stored := hstored, isNew := hnew, unassigned := ?_ }
  · have hadmin : record.isPrivileged = Role.isPrivilegedName (trim name) := hkind
    rw [hadmin, Role.isPrivilegedName, trim_trim, sameIgnoringCase, beq_iff_eq]
    rfl
  · intro user
    rw [hmade.assignments user]
    exact Store.not_mem_rolesOfUser hs hnew user

/-- **Roles hold exactly what was requested.**  In every world that the services lead to, for a
user who may do so and for every list of names, in any order and with repeats:

* setting the permissions of a role succeeds if and only if the names are all of the catalog and
  the role exists, and then the role resolves to the set of the list, whether it is privileged or
  not;
* creating a role succeeds if and only if the trimmed name is not empty, the names are all of the
  catalog, and no role has the trimmed name (the numbers for roles must not have run out), and then
  the new role resolves to the set of the list, and it is privileged if and only if its name is
  "admin" in whatever case.

All other roles resolve as before, every user has the roles and rows from before, and every
decision about a user follows from these and the new set at once.  A request that fails leaves the
store as it was. -/
theorem roles_hold_what_was_requested (d : Deployment) (actor : UserId) (w : World) :
    (Authorized d actor Permission.editRoles w → ∀ role granted,
      lossy.Yields (setRolePermissions d actor role granted).run w fun r w' =>
        (r = .ok () ↔ (∀ name ∈ granted, name ∈ d.catalog.nameList) ∧
          ∃ record, w.store.findRole role = some record) ∧
        (r = .ok () → MadeToHold d role granted w w') ∧ FailsClean w.store r w') ∧
    (Authorized d actor Permission.createRoles w → ∀ name displayName granted,
      lossy.Yields (createRole d actor name displayName granted).run w fun r w' =>
        ((∃ record, r = .ok record) ↔ trim name ≠ "" ∧
          (∀ name ∈ granted, name ∈ d.catalog.nameList) ∧ w.store.Unused (trim name) ∧
          w.store.lastRole < Int64.maxValue) ∧
        (∀ record, r = .ok record → Created d record name granted w w') ∧
        FailsClean w.store r w') := by
  constructor
  · intro hactor role granted
    have hw := hactor.reachable.coherent
    refine yields_of_ensures fun t r w' ht hf => ?_
    have hdecided := (ensures_setRolePermissions hw t r w' ht hf).of_iff
      (and_iff_right hactor.mem).symm
    have hw' : w'.Coherent d.catalog :=
      keeps_of_keepsOrder (fun _ => rfl) (keepsOrder_setRolePermissions actor granted) w hw _ _ _
        ht hf
    refine ⟨hdecided.ok_unit_iff, ?_, hdecided.failsClean⟩
    rintro rfl
    obtain ⟨hknown, -⟩ := hdecided.ok_unit_iff.mp rfl
    obtain ⟨record, hrecord, hwritten⟩ := hdecided.written_of_ok
    exact madeToHold_of_replaceRoleGrants hw' hknown hrecord hwritten
  · intro hactor name displayName granted
    have hw := hactor.reachable.coherent
    refine yields_of_ensures fun t r w' ht hf => ?_
    have hdecided := (ensures_createRole hw t r w' ht hf).of_iff (and_iff_right hactor.mem).symm
    have hw' : w'.Coherent d.catalog :=
      keeps_of_keepsOrder (fun _ => rfl) (keepsOrder_createRole actor name displayName granted) w
        hw _ _ _ ht hf
    refine ⟨hdecided.ok_iff, ?_, hdecided.failsClean⟩
    rintro record rfl
    obtain ⟨-, hknown, -⟩ := hdecided.ok_iff.mp ⟨record, rfl⟩
    exact created_of_createRole hactor.reachable.sound hw' hknown hdecided.written_of_ok

/-- A deployment whose catalog has the permissions to create and to edit roles. -/
def managing : Deployment :=
  ⟨(Catalog.single ⟨⟨Permission.createRoles⟩, ⟨"Create role"⟩, ⟨"Roles"⟩⟩).push
    ⟨⟨Permission.editRoles⟩, ⟨"Edit role"⟩, ⟨"Roles"⟩⟩ rfl, 60, {}⟩

theorem authorized_oneAdmin {name : String}
    (h : name ∈ oneAdmin.store.permissions managing.catalog ⟨1⟩) :
    Authorized managing ⟨1⟩ name oneAdmin :=
  authorized_of_mem ⟨oneAdmin, sound_oneAdmin, rfl, .start⟩ h

/-- A privileged role is set to less than everything, and one more privileged role is created. -/
theorem roles_hold_what_was_requested_of_admins :
    Authorized managing ⟨1⟩ Permission.editRoles oneAdmin ∧
      Authorized managing ⟨1⟩ Permission.createRoles oneAdmin ∧
      lossy.Yields (setRolePermissions managing ⟨1⟩ ⟨1⟩
        [Permission.editRoles, Permission.editRoles]).run oneAdmin (fun r w' => r = .ok () ∧
          MadeToHold managing ⟨1⟩ [Permission.editRoles, Permission.editRoles] oneAdmin w') ∧
      lossy.Yields (createRole managing ⟨1⟩ " ADMIN " "" [Permission.editRoles]).run oneAdmin
        (fun r w' => ∃ record, r = .ok record ∧ record.isPrivileged = true ∧
          Created managing record " ADMIN " [Permission.editRoles] oneAdmin w') := by
  have hedit := authorized_oneAdmin (show Permission.editRoles ∈ _ by decide +kernel)
  have hcreate := authorized_oneAdmin (show Permission.createRoles ∈ _ by decide +kernel)
  refine ⟨hedit, hcreate, ?_, ?_⟩
  · refine ((roles_hold_what_was_requested managing ⟨1⟩ oneAdmin).1 hedit _ _).mono
      fun r w' hr => ?_
    have hok := hr.1.mpr ⟨by decide +kernel, ⟨⟨1⟩, "Admin", "Admin", true⟩, by decide +kernel⟩
    exact ⟨hok, hr.2.1 hok⟩
  · refine ((roles_hold_what_was_requested managing ⟨1⟩ oneAdmin).2 hcreate _ _ _).mono
      fun r w' hr => ?_
    obtain ⟨record, hok⟩ := hr.1.mpr ⟨by decide +kernel, by decide +kernel,
      Store.unused_iff.mpr (by decide +kernel), by decide +kernel⟩
    have hcreated := hr.2.1 record hok
    exact ⟨record, hok, hcreated.kind.mpr (by decide +kernel), hcreated⟩

end Administration
end AccessControl
