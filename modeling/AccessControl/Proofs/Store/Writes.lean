import AccessControl.Store.Basic

/-! # What a write has done

A write that succeeds says what is stored afterwards, and which of its checks have passed.
There is one inversion lemma for each write; nothing else looks into the writes.
-/
namespace AccessControl

namespace Store
variable {s s' : Store} {role : RoleId} {user : UserId}

/-- A number that is given is the one after the last. -/
theorem next_ok {last number : Int64} (h : next last = .ok number) :
    number.toInt = last.toInt + 1 := by
  rw [next] at h
  split at h
  · rename_i hmax
    obtain rfl := Except.ok.inj h
    have hlow := Int64.le_toInt last
    have hhigh : last.toInt < Int64.maxValue.toInt := Int64.lt_iff_toInt_lt.mp hmax
    rw [Int64.toInt_maxValue] at hhigh
    have hone : (1 : Int64).toInt = 1 := rfl
    rw [Int64.toInt_add, hone]
    exact Int.bmod_eq_of_le (by omega) (by omega)
  · cases h

theorem createUser_ok {name : String} {stamp : SecurityStamp}
    (h : s.createUser name stamp = .ok (user, s')) :
    ((∀ stored ∈ s.users.values, stored.name ≠ trim name) ∧ next s.lastUser = .ok user.number) ∧
      s' = { s with
        users := s.users.insert user ⟨trim name, stamp, [], []⟩
        lastUser := user.number } := by
  rw [createUser, Except.bind_eq_ok_iff] at h
  obtain ⟨_, _, h⟩ := h
  obtain ⟨_, hfree, h⟩ := Except.bind_eq_ok_iff.mp h
  obtain ⟨number, hnumber, h⟩ := Except.bind_eq_ok_iff.mp h
  obtain ⟨rfl, rfl⟩ := Prod.mk.inj (Except.ok.inj h)
  exact ⟨⟨by simpa using failIf_eq_ok_iff.mp hfree, hnumber⟩, rfl⟩

theorem createRole_ok {new : NewRole} {record : Role} (h : s.createRole new = .ok (record, s')) :
    ((∀ stored ∈ s.roles.values, stored.name ≠ new.name) ∧
      ∃ number, next s.lastRole = .ok number ∧
        record = ⟨⟨number⟩, new.name, new.displayName, new.isPrivileged⟩) ∧
      s' = { s with
        roles := s.roles.insert record.id record
        roleGrants := s.roleGrants.insert record.id new.grants
        lastRole := record.id.number } := by
  rw [createRole, Except.bind_eq_ok_iff] at h
  obtain ⟨_, hfree, h⟩ := h
  rw [Except.bind_eq_ok_iff] at h
  obtain ⟨number, hnumber, h⟩ := h
  obtain ⟨rfl, rfl⟩ := Prod.mk.inj (Except.ok.inj h)
  exact ⟨⟨by simpa using failIf_eq_ok_iff.mp hfree, number, hnumber, rfl⟩, rfl⟩

theorem updateRole_ok {change : RoleChange} (h : s.updateRole role change = .ok s') :
    (s.nameTakenBeside role change.name = false ∧ s.roles.contains role = true) ∧ s' = { s with
      roles := s.roles.modify role (fun stored => { stored with
        name := change.name
        displayName := change.displayName
        isPrivileged := change.isPrivileged })
      roleGrants :=
        match change.grants? with
        | some grants => s.roleGrants.insert role grants
        | none => s.roleGrants } := by
  rw [updateRole, Except.bind_eq_ok_iff] at h
  obtain ⟨_, hfree, h⟩ := h
  rw [Except.bind_eq_ok_iff] at h
  obtain ⟨_, hexists, h⟩ := h
  rw [failIf_eq_ok_iff] at hfree hexists
  exact ⟨⟨by simpa using hfree, by simpa using hexists⟩, (Except.ok.inj h).symm⟩

theorem replaceRoleGrants_ok {grants : List Grant}
    (h : s.replaceRoleGrants role grants = .ok s') :
    s.roles.contains role = true ∧
      s' = { s with roleGrants := s.roleGrants.insert role grants } := by
  rw [replaceRoleGrants] at h
  split at h
  · rename_i hexists
    exact ⟨hexists, (Except.ok.inj h).symm⟩
  · cases h

/-- A changed role has the new kind, and all else that the change has. -/
theorem findRole_updateRole {change : RoleChange} {record : Role}
    (h : s.updateRole role change = .ok s') (hrecord : s.findRole role = some record) :
    s'.findRole role = some { record with
      name := change.name
      displayName := change.displayName
      isPrivileged := change.isPrivileged } := by
  obtain ⟨-, rfl⟩ := updateRole_ok h
  rw [findRole] at hrecord
  rw [findRole, Table.find?_modify, if_pos rfl, hrecord]
  rfl

/-- A changed role has the new rows, if there are any, and else those it had. -/
theorem grantsOfRole_updateRole {change : RoleChange} (h : s.updateRole role change = .ok s') :
    s'.grantsOfRole role = change.grants?.getD (s.grantsOfRole role) := by
  obtain ⟨-, rfl⟩ := updateRole_ok h
  rw [grantsOfRole]
  cases change.grants? with
  | none => rfl
  | some grants => simp [Table.find?_insert]

theorem findRole_replaceRoleGrants {grants : List Grant} {other : RoleId}
    (h : s.replaceRoleGrants role grants = .ok s') : s'.findRole other = s.findRole other := by
  obtain ⟨-, rfl⟩ := replaceRoleGrants_ok h
  rfl

theorem grantsOfRole_replaceRoleGrants {grants : List Grant}
    (h : s.replaceRoleGrants role grants = .ok s') : s'.grantsOfRole role = grants := by
  obtain ⟨-, rfl⟩ := replaceRoleGrants_ok h
  simp [grantsOfRole, Table.find?_insert]

theorem deleteRole_ok {users : List UserId} (h : s.deleteRole role = .ok (users, s')) :
    users = s.usersWith role ∧ s' = { s with
      roles := s.roles.erase role
      roleGrants := s.roleGrants.erase role
      users := s.users.mapValues (fun _ user =>
        { user with roles := user.roles.filter (fun assigned => assigned ≠ role) }) } := by
  rw [deleteRole] at h
  split at h
  · obtain ⟨rfl, rfl⟩ := Prod.mk.inj (Except.ok.inj h)
    exact ⟨rfl, rfl⟩
  · cases h

section Deleting
variable {users : List UserId} (h : s.deleteRole role = .ok (users, s'))
include h

theorem findRole_deleteRole (other : RoleId) :
    s'.findRole other = if other = role then none else s.findRole other := by
  obtain ⟨-, rfl⟩ := deleteRole_ok h
  exact Table.find?_erase s.roles role other

theorem grantsOfRole_deleteRole (other : RoleId) :
    s'.grantsOfRole other = if other = role then [] else s.grantsOfRole other := by
  obtain ⟨-, rfl⟩ := deleteRole_ok h
  rw [grantsOfRole, Table.find?_erase]
  split <;> rfl

/-- Every user keeps all roles but the deleted one. -/
theorem rolesOfUser_deleteRole (user : UserId) :
    s'.rolesOfUser user = (s.rolesOfUser user).filter (fun other => other ≠ role) := by
  obtain ⟨-, rfl⟩ := deleteRole_ok h
  rw [rolesOfUser, Table.find?_mapValues, rolesOfUser]
  cases s.users.find? user <;> rfl

theorem grantsOfUser_deleteRole (user : UserId) : s'.grantsOfUser user = s.grantsOfUser user := by
  obtain ⟨-, rfl⟩ := deleteRole_ok h
  rw [grantsOfUser, Table.find?_mapValues, grantsOfUser]
  cases s.users.find? user <;> rfl

theorem stampOf_deleteRole (user : UserId) : s'.stampOf user = s.stampOf user := by
  obtain ⟨-, rfl⟩ := deleteRole_ok h
  rw [stampOf, Table.find?_mapValues, stampOf]
  cases s.users.find? user <;> rfl

end Deleting

theorem modifyUser_ok {change : StoredUser → StoredUser} (h : s.modifyUser user change = .ok s') :
    s.users.contains user = true ∧ s' = { s with users := s.users.modify user change } := by
  rw [modifyUser] at h
  split at h
  · rename_i hexists
    exact ⟨hexists, (Except.ok.inj h).symm⟩
  · cases h

theorem replaceUserRoles_ok {roles : List RoleId} (h : s.replaceUserRoles user roles = .ok s') :
    s.modifyUser user ({ · with roles }) = .ok s' := by
  rw [replaceUserRoles] at h
  split at h
  · cases h
  · exact h

/-- Roles that are given to a user exist. -/
theorem rolesExist_of_replaceUserRoles {roles : List RoleId}
    (h : s.replaceUserRoles user roles = .ok s') :
    ∀ role ∈ roles, s.roles.contains role = true := by
  rw [replaceUserRoles] at h
  split at h
  · cases h
  · rename_i hnone
    intro role hrole
    simpa using List.find?_eq_none.mp hnone role hrole

theorem createToken_ok {record : Token.Record} (h : s.createToken record = .ok s') :
    s' = { s with tokens := s.tokens.insert (record.userId, record.key) record.expiresAt } := by
  rw [createToken] at h
  split at h
  · exact (Except.ok.inj h).symm
  · cases h

/-- A token is recorded for a user who exists. -/
theorem userExists_of_createToken {record : Token.Record} (h : s.createToken record = .ok s') :
    s.users.contains record.userId = true := by
  rw [createToken] at h
  split at h
  · assumption
  · cases h

/-! ## Writes without an owner -/

theorem replaceRoleGrants_missing (h : s.roles.contains role = false) (grants : List Grant) :
    s.replaceRoleGrants role grants = .error (Role.missing role) := by
  rw [replaceRoleGrants, h]
  rfl

theorem modifyUser_missing (h : s.users.contains user = false)
    (change : StoredUser → StoredUser) : s.modifyUser user change = .error user.missing := by
  rw [modifyUser, h]
  rfl

/-- The roles are looked for first, but without its user the write finds nothing either way. -/
theorem replaceUserRoles_missing (h : s.users.contains user = false) (roles : List RoleId) :
    ∃ detail, s.replaceUserRoles user roles = .error (.notFound detail) := by
  rw [replaceUserRoles]
  split
  · exact ⟨_, rfl⟩
  · exact ⟨_, modifyUser_missing h _⟩

/-! ## What a change of one user leaves alone -/

theorem find?_modifyUser {change : StoredUser → StoredUser}
    (h : s.modifyUser user change = .ok s') (other : UserId) :
    s'.users.find? other =
      if other = user then (s.users.find? other).map change else s.users.find? other := by
  obtain ⟨-, rfl⟩ := modifyUser_ok h
  exact Table.find?_modify s.users user other change

/-- A change of a user that keeps the stamp keeps the stamps of all. -/
theorem stampOf_modifyUser {change : StoredUser → StoredUser} {other : UserId}
    (h : s.modifyUser user change = .ok s')
    (hstamp : ∀ stored, (change stored).stamp = stored.stamp) :
    s'.stampOf other = s.stampOf other := by
  rw [stampOf, find?_modifyUser h, stampOf]
  split
  · cases s.users.find? other with
    | none => rfl
    | some stored => exact congrArg some (hstamp stored)
  · rfl

/-- A new stamp is that of its user and of nobody else. -/
theorem stampOf_updateStamp {stamp : SecurityStamp} {other : UserId}
    (h : s.updateStamp user stamp = .ok s') :
    s'.stampOf other = if other = user then some stamp else s.stampOf other := by
  obtain ⟨hexists, -⟩ := modifyUser_ok h
  rw [stampOf, find?_modifyUser h, stampOf]
  split
  · rename_i hother
    obtain ⟨stored, hstored⟩ := Option.isSome_iff_exists.mp hexists
    rw [hother, hstored]
    rfl
  · rfl

/-- The users who have a role are those among whose roles it is. -/
theorem mem_usersWith : user ∈ s.usersWith role ↔ role ∈ s.rolesOfUser user := by
  rw [usersWith, rolesOfUser, List.mem_map]
  constructor
  · rintro ⟨e, he, rfl⟩
    obtain ⟨hmem, hrole⟩ := List.mem_filter.mp he
    have hfind : s.users.find? e.1 = some e.2 := Table.find?_eq_some_iff.mpr hmem
    rw [hfind]
    exact List.contains_iff_mem.mp hrole
  · intro h
    cases hfind : s.users.find? user with
    | none => simp [hfind] at h
    | some stored =>
      rw [hfind] at h
      exact ⟨(user, stored), List.mem_filter.mpr
        ⟨Table.find?_eq_some_iff.mp hfind, List.contains_iff_mem.mpr h⟩, rfl⟩

end Store
end AccessControl
