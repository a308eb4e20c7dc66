import AccessControl.Proofs.Authorization.Stored
import AccessControl.Proofs.Store.Data
import AccessControl.Proofs.World.Answers

/-! # What is cached is what is stored

A cached value is valid if the item it stands for is what would be computed again from the
store (`Cached.Valid`), and a world is coherent if every value held in its cache is valid,
expired ones included (`World.Coherent`).  Whatever only adds valid values keeps a world
coherent (`World.Refills`).
-/
namespace AccessControl

/-- **The item that a value stands for is the one computed from the store.**  A value that
stands for nothing is valid, since it is never taken for an item. -/
def Cached.Valid (s : Store) (catalog : Catalog) : CacheKey → String → Prop
  | .userRoles user, value =>
    ∀ item : Cached.UserRoles, Json.decode? value = some item → item.roleIds = s.rolesOfUser user
  | .userPermissions user, value =>
    ∀ item : Cached.UserPermissions, Json.decode? value = some item →
      item.granted = (s.overrides user).granted ∧ item.prohibited = (s.overrides user).prohibited
  | .rolePermissions role, value =>
    ∀ item : Cached.RolePermissions, Json.decode? value = some item →
      s.roleSet catalog role = some item.granted
  | .tokenValidity _ _, _ => True
  | .securityStamp _, _ => True

theorem CacheKey.Spoilt.valid {key : CacheKey} {value : String} (h : key.Spoilt value) (s : Store)
    (catalog : Catalog) : Cached.Valid s catalog key value := by
  cases key with
  | userRoles user => exact fun item hitem => absurd (hitem.symm.trans h) (by simp)
  | userPermissions user => exact fun item hitem => absurd (hitem.symm.trans h) (by simp)
  | rolePermissions role => exact fun item hitem => absurd (hitem.symm.trans h) (by simp)
  | tokenValidity user key => trivial
  | securityStamp user => trivial

/-- What is cached for decisions on a user. -/
def CacheKey.OfDecisions (user : UserId) : CacheKey → Prop
  | .userRoles owner => owner = user
  | .userPermissions owner => owner = user
  | .rolePermissions _ => True
  | _ => False

namespace Store
variable {s s' : Store} {catalog : Catalog}

/-- Two stores agree on what is computed for an item. -/
def Agrees (catalog : Catalog) (s s' : Store) : CacheKey → Prop
  | .userRoles user => s'.rolesOfUser user = s.rolesOfUser user
  | .userPermissions user => s'.grantsOfUser user = s.grantsOfUser user
  | .rolePermissions role => s'.roleSet catalog role = s.roleSet catalog role
  | .tokenValidity _ _ => True
  | .securityStamp _ => True

theorem Agrees.valid {key : CacheKey} {value : String} (h : s.Agrees catalog s' key)
    (hvalid : Cached.Valid s catalog key value) : Cached.Valid s' catalog key value := by
  cases key with
  | userRoles user => exact fun item hitem => (hvalid item hitem).trans h.symm
  | userPermissions user =>
    intro item hitem
    have hrows : s'.grantsOfUser user = s.grantsOfUser user := h
    rw [overrides, hrows]
    exact hvalid item hitem
  | rolePermissions role => exact fun item hitem => h.trans (hvalid item hitem)
  | tokenValidity user key => trivial
  | securityStamp user => trivial

/-- **Stores with the same data agree.** -/
theorem SameData.agrees {key : CacheKey} (h : s.SameData s' key) : s.Agrees catalog s' key := by
  cases key with
  | userRoles user => exact h
  | userPermissions user => exact h
  | rolePermissions role =>
    show s'.roleSet catalog role = s.roleSet catalog role
    rw [roleSet, h.1, h.2, roleSet]
  | tokenValidity user key => trivial
  | securityStamp user => trivial

/-- Stores that agree on every item for decisions on a user give the user the same permissions. -/
theorem permissions_of_agreesFor {user : UserId}
    (h : ∀ key : CacheKey, key.OfDecisions user → s.Agrees catalog s' key) :
    s'.permissions catalog user = s.permissions catalog user := by
  have hroles : s'.rolesOfUser user = s.rolesOfUser user := h (.userRoles user) rfl
  have hrows : s'.grantsOfUser user = s.grantsOfUser user := h (.userPermissions user) rfl
  have hsets : s'.roleSet catalog = s.roleSet catalog :=
    funext fun role => h (.rolePermissions role) trivial
  simp only [permissions, overrides, roleSets, hroles, hrows, hsets]

end Store

namespace World
variable {catalog : Catalog} {v w : World}

/-- Every value held under a key other than those excepted is valid. -/
def CoherentBut (catalog : Catalog) (excepted : CacheKey → Prop) (w : World) : Prop :=
  ∀ key value, ¬excepted key → w.Holds key value → Cached.Valid w.store catalog key value

/-- **Every value held is valid.** -/
def Coherent (catalog : Catalog) (w : World) : Prop := w.CoherentBut catalog fun _ => False

/-- Only valid values were cached since. -/
abbrev Refills (catalog : Catalog) (w w' : World) : Prop :=
  OnlyCaches (Cached.Valid w.store catalog) w w'

theorem Refills.of_drifts (h : Drifts v w) : v.Refills catalog w := OnlyCaches.of_drifts h

theorem CoherentBut.refills {excepted : CacheKey → Prop} (h : v.CoherentBut catalog excepted)
    (hw : v.Refills catalog w) : w.CoherentBut catalog excepted := by
  intro key value hkey hheld
  rw [hw.store]
  rcases hw.held key value hheld with hv | hspoilt | hvalid
  · exact h key value hkey hv
  · exact hspoilt.valid _ _
  · exact hvalid

theorem Coherent.refills (h : v.Coherent catalog) (hw : v.Refills catalog w) :
    w.Coherent catalog := CoherentBut.refills h hw

/-- A world without cached values is coherent. -/
theorem coherent_of_empty (h : w.cache.entries = ∅) : w.Coherent catalog := by
  intro key value _ hheld
  rw [Holds, h, Table.find?_empty] at hheld
  cases hheld

/-- The outside of services whose cache may fail. -/
abbrev lossy : Outside Backend World := unreliable Backend.Request.mayBeLost

/-- Where only the cache fails, no store does. -/
theorem not_storesFail_lossy : ¬StoresFail Backend.Request.mayBeLost := by
  rintro ⟨lost, hstore, hlost⟩
  cases lost with
  | cacheGet key => cases hstore
  | cacheSet key value seconds => cases hstore
  | _ => cases hlost

/-- Whatever may fail, what is removed from the cache is gone. -/
abbrev RemovalsHold (mayFail : Backend.Request → Bool) : Prop :=
  ∀ key, mayFail (.cacheDelete key) = false

end World
end AccessControl
