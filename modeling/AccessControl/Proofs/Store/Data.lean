import AccessControl.Cached.Key
import AccessControl.Proofs.Store.Writes

/-! # The data of cached items

Every item that is cached about permissions is computed from what the store has about one owner:
the roles of a user, the rows of a user, or a role with its rows.  For each write it is said here
for which items the stores before and after it have the same data; all items that are computed
from other data stay right.
-/
namespace AccessControl.Store
variable {s s' s'' : Store} {role : RoleId} {user : UserId} {key : CacheKey}

/-- **Two stores have the same data for an item**: all that the item is computed from.  What is
cached about sessions has none here. -/
def SameData (s s' : Store) : CacheKey → Prop
  | .userRoles user => s'.rolesOfUser user = s.rolesOfUser user
  | .userPermissions user => s'.grantsOfUser user = s.grantsOfUser user
  | .rolePermissions role =>
    s'.findRole role = s.findRole role ∧ s'.grantsOfRole role = s.grantsOfRole role
  | .tokenValidity _ _ => True
  | .securityStamp _ => True

theorem SameData.refl (s : Store) (key : CacheKey) : s.SameData s key := by
  cases key <;> first | rfl | exact ⟨rfl, rfl⟩ | trivial

theorem SameData.trans (h : s.SameData s' key) (h' : s'.SameData s'' key) :
    s.SameData s'' key := by
  cases key with
  | userRoles user => exact Eq.trans h' h
  | userPermissions user => exact Eq.trans h' h
  | rolePermissions role => exact ⟨h'.1.trans h.1, h'.2.trans h.2⟩
  | tokenValidity user key => trivial
  | securityStamp user => trivial

/-- Stores with the same users and with the same roles beside one have the same data but for that
role. -/
theorem sameData_of_roles (husers : s'.users = s.users)
    (hroles : ∀ other, other ≠ role → s'.roles.find? other = s.roles.find? other)
    (hgrants : ∀ other, other ≠ role → s'.roleGrants.find? other = s.roleGrants.find? other)
    (key : CacheKey) (hkey : key ≠ .rolePermissions role) : s.SameData s' key := by
  cases key with
  | userRoles user =>
    show s'.rolesOfUser user = s.rolesOfUser user
    rw [rolesOfUser, husers, rolesOfUser]
  | userPermissions user =>
    show s'.grantsOfUser user = s.grantsOfUser user
    rw [grantsOfUser, husers, grantsOfUser]
  | rolePermissions other =>
    have hother : other ≠ role := fun heq => hkey (heq ▸ rfl)
    refine ⟨hroles other hother, ?_⟩
    rw [grantsOfRole, hgrants other hother, grantsOfRole]
  | tokenValidity user key => trivial
  | securityStamp user => trivial

theorem sameData_createRole {new : NewRole} {record : Role}
    (h : s.createRole new = .ok (record, s')) (key : CacheKey)
    (hkey : key ≠ .rolePermissions record.id) : s.SameData s' key := by
  obtain ⟨-, rfl⟩ := createRole_ok h
  refine sameData_of_roles (by rfl) (fun other hother => ?_) (fun other hother => ?_) key hkey
  · rw [Table.find?_insert, if_neg hother]
  · rw [Table.find?_insert, if_neg hother]

theorem sameData_updateRole {change : RoleChange} (h : s.updateRole role change = .ok s')
    (key : CacheKey) (hkey : key ≠ .rolePermissions role) : s.SameData s' key := by
  obtain ⟨-, rfl⟩ := updateRole_ok h
  refine sameData_of_roles (by rfl) (fun other hother => ?_) (fun other hother => ?_) key hkey
  · rw [Table.find?_modify, if_neg hother]
  · cases change.grants? with
    | none => rfl
    | some grants => exact (Table.find?_insert ..).trans (if_neg hother)

theorem sameData_replaceRoleGrants {grants : List Grant}
    (h : s.replaceRoleGrants role grants = .ok s') (key : CacheKey)
    (hkey : key ≠ .rolePermissions role) : s.SameData s' key := by
  obtain ⟨-, rfl⟩ := replaceRoleGrants_ok h
  refine sameData_of_roles (by rfl) (fun _ _ => by rfl) (fun other hother => ?_) key hkey
  rw [Table.find?_insert, if_neg hother]

/-- A role that is deleted is taken from the users who had it, and from nobody else. -/
theorem sameData_deleteRole {users : List UserId} (h : s.deleteRole role = .ok (users, s'))
    (key : CacheKey) (hrole : key ≠ .rolePermissions role)
    (husers : ∀ user ∈ users, key ≠ .userRoles user) : s.SameData s' key := by
  obtain rfl : users = s.usersWith role := (deleteRole_ok h).1
  cases key with
  | userRoles user =>
    have hkept : ∀ assigned ∈ s.rolesOfUser user, assigned ≠ role := by
      rintro assigned hassigned rfl
      exact husers user (mem_usersWith.mpr hassigned) rfl
    refine (rolesOfUser_deleteRole h user).trans (List.filter_eq_self.mpr ?_)
    exact fun assigned hassigned => decide_eq_true (hkept assigned hassigned)
  | userPermissions user => exact grantsOfUser_deleteRole h user
  | rolePermissions other =>
    have hother : other ≠ role := fun heq => hrole (heq ▸ rfl)
    constructor
    · rw [findRole_deleteRole h, if_neg hother]
    · rw [grantsOfRole_deleteRole h, if_neg hother]
  | tokenValidity user key => trivial
  | securityStamp user => trivial

/-- A change of one user beside what the user has leaves everything else alone. -/
theorem sameData_modifyUser {change : StoredUser → StoredUser}
    (h : s.modifyUser user change = .ok s') (key : CacheKey)
    (hroles : key ≠ .userRoles user ∨ ∀ stored, (change stored).roles = stored.roles)
    (hgrants : key ≠ .userPermissions user ∨ ∀ stored, (change stored).grants = stored.grants) :
    s.SameData s' key := by
  have hfind := find?_modifyUser h
  cases key with
  | userRoles other =>
    by_cases hother : other = user
    · subst hother
      have hsame := hroles.resolve_left (not_not_intro rfl)
      simp only [SameData, rolesOfUser, hfind, if_true]
      cases s.users.find? other with
      | none => rfl
      | some stored => exact hsame stored
    · simp only [SameData, rolesOfUser, hfind, hother, if_false]
  | userPermissions other =>
    by_cases hother : other = user
    · subst hother
      have hsame := hgrants.resolve_left (not_not_intro rfl)
      simp only [SameData, grantsOfUser, hfind, if_true]
      cases s.users.find? other with
      | none => rfl
      | some stored => exact hsame stored
    · simp only [SameData, grantsOfUser, hfind, hother, if_false]
  | rolePermissions role =>
    obtain ⟨-, rfl⟩ := modifyUser_ok h
    exact ⟨rfl, rfl⟩
  | tokenValidity user key => trivial
  | securityStamp user => trivial

end AccessControl.Store
