import AccessControl.Authorization.Decision
import AccessControl.Proofs.Permission.Overrides
import AccessControl.Store.Basic

/-! # What a store gives roles and users

The permissions of a role and of a user as they follow from a store, without a service and
without a cache.  Everything that services answer is compared with these.
-/
namespace AccessControl

namespace Store
variable (s : Store) (catalog : Catalog)

/-- The permissions of a role; none if there is no such role. -/
def roleSet (role : RoleId) : Option NameSet :=
  (s.findRole role).map (fun record => record.effective (s.grantsOfRole role) catalog)

/-- The permissions of those of the roles that exist. -/
def roleSets (roles : List RoleId) : List NameSet := roles.filterMap (s.roleSet catalog)

/-- What is given to a user alone and what is prohibited for the user. -/
def overrides (user : UserId) : Overrides := Overrides.ofRows (s.grantsOfUser user)

/-- The permissions of a user. -/
def permissions (user : UserId) : NameSet :=
  ((s.overrides user).effective (s.roleSets catalog (s.rolesOfUser user))).filter catalog.contains

end Store

/-- A decision on a permission of the catalog is whether the user has it. -/
theorem Store.decides_eq {s : Store} {catalog : Catalog} {user : UserId} {name : String}
    (h : catalog.contains name = true) :
    (s.overrides user).decides name (s.roleSets catalog (s.rolesOfUser user)) =
      (s.permissions catalog user).contains name := by
  rw [Bool.eq_iff_iff, SortedSet.contains_iff, Store.permissions, SortedSet.mem_filter,
    Store.overrides, Overrides.decides_iff Overrides.apart_ofRows]
  exact (and_iff_left h).symm

end AccessControl
