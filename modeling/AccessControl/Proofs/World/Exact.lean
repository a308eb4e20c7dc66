import AccessControl.Proofs.World.Coherence
import AccessControl.Proofs.World.Fills

/-! # Exact items

A cached value is exact if the item it stands for is the one that is computed from the store,
its owner included (`Cached.Exact`).  A value that was made from what was looked up is exact as long
as the data of its item stays as it was, even if other parts of the item were looked up in other
stores (`Derived.exact`).
-/
namespace AccessControl
open World
variable {s s' : Store} {catalog : Catalog} {key : CacheKey} {value : String}
  {mayFail : Backend.Request → Bool}

/-- **The item that a value stands for is the one computed from the store, owner and all.**  A value
that stands for nothing is exact, since it is never taken for an item. -/
def Cached.Exact (s : Store) (catalog : Catalog) : CacheKey → String → Prop
  | .userRoles user, value =>
    ∀ item : Cached.UserRoles, Json.decode? value = some item → item = ⟨user, s.rolesOfUser user⟩
  | .userPermissions user, value =>
    ∀ item : Cached.UserPermissions, Json.decode? value = some item →
      item = ⟨user, (s.overrides user).granted, (s.overrides user).prohibited⟩
  | .rolePermissions role, value =>
    ∀ item : Cached.RolePermissions, Json.decode? value = some item →
      ∃ held, s.roleSet catalog role = some held ∧ item = ⟨role, held⟩
  | .tokenValidity _ _, _ => True
  | .securityStamp _, _ => True

theorem Cached.Exact.valid (h : Cached.Exact s catalog key value) :
    Cached.Valid s catalog key value := by
  cases key with
  | userRoles user => exact fun item hitem => by rw [h item hitem]
  | userPermissions user => exact fun item hitem => by rw [h item hitem]; exact ⟨rfl, rfl⟩
  | rolePermissions role =>
    intro item hitem
    obtain ⟨held, hset, rfl⟩ := h item hitem
    exact hset
  | tokenValidity user key => trivial
  | securityStamp user => trivial

theorem CacheKey.Spoilt.exact (h : key.Spoilt value) (s : Store) (catalog : Catalog) :
    Cached.Exact s catalog key value := by
  cases key with
  | userRoles user => exact fun item hitem => absurd (hitem.symm.trans h) (by simp)
  | userPermissions user => exact fun item hitem => absurd (hitem.symm.trans h) (by simp)
  | rolePermissions role => exact fun item hitem => absurd (hitem.symm.trans h) (by simp)
  | tokenValidity user key => trivial
  | securityStamp user => trivial

/-- What is exact stays so as long as the data of the item stays as it is. -/
theorem Cached.Exact.of_sameData (h : Cached.Exact s catalog key value)
    (hsame : s.SameData s' key) : Cached.Exact s' catalog key value := by
  cases key with
  | userRoles user =>
    have hroles : s'.rolesOfUser user = s.rolesOfUser user := hsame
    exact fun item hitem => by rw [hroles, h item hitem]
  | userPermissions user =>
    have hrows : s'.overrides user = s.overrides user := congrArg Overrides.ofRows hsame
    exact fun item hitem => by rw [hrows, h item hitem]
  | rolePermissions role =>
    have hset : s'.roleSet catalog role = s.roleSet catalog role := hsame.agrees
    exact fun item hitem => by rw [hset]; exact h item hitem
  | tokenValidity user key => trivial
  | securityStamp user => trivial

/-- An answer is as some store has it that has the same data for an item. -/
def ReadsSame (mayFail : Backend.Request → Bool) (s : Store) (key : CacheKey)
    (e : Exchange Backend) : Prop :=
  ∃ s₀ : Store, Reads mayFail s₀ e ∧ s₀.SameData s key

/-- **A value that was made from the data of its item is exact.** -/
theorem Derived.exact {look : Exchange Backend} {more : List (Exchange Backend)}
    (h : Derived catalog key look more value) (hlook : ReadsSame mayFail s key look)
    (hmore : ∀ e ∈ more, ReadsSame mayFail s key e) : Cached.Exact s catalog key value := by
  obtain ⟨s₀, hread, hsame⟩ := hlook
  cases h with
  | userRoles user roles =>
    have hroles : roles = s.rolesOfUser user := (Gives.eq hread).trans (Eq.symm hsame)
    intro item hitem
    rw [Json.eq_of_decode?_write hitem, hroles]
  | userPermissions user rows =>
    have hrows : rows = s.grantsOfUser user := (Gives.eq hread).trans (Eq.symm hsame)
    intro item hitem
    rw [Json.eq_of_decode?_write hitem, hrows]
    rfl
  | rolePermissions role record rows =>
    -- The role and its rows may have been read from different stores.
    obtain ⟨s₁, hread', hsame'⟩ := hmore _ List.mem_cons_self
    have hrecord : s.findRole role = some record := hsame.1.trans (Gives.eq hread).symm
    have hrows : s.grantsOfRole role = rows := hsame'.2.trans (Gives.eq hread').symm
    intro item hitem
    refine ⟨record.effective rows catalog, ?_, Json.eq_of_decode?_write hitem⟩
    rw [Store.roleSet, hrecord, hrows]
    rfl
  | securityStamp user stamp => trivial
  | liveToken user key now => trivial
  | newToken user key expiresAt => trivial

namespace World
variable {w w' : World}

/-- What is asked while the data of an item stays as it is, is answered with this data. -/
theorem readsSame_of_mem {t : List (Exchange Backend)} (h : (unreliable mayFail).Follows w t w')
    (ht : ∀ e ∈ t, ¬Unsettles key e) : ∀ e ∈ t, ReadsSame mayFail w'.store key e := by
  induction h with
  | nil => exact fun _ he => absurd he List.not_mem_nil
  | @cons w m w' e t h hrest ih =>
    have hsame := sameData_of_follows (.cons h hrest) ht
    exact List.forall_mem_cons.mpr
      ⟨⟨w.store, reads_of_answers h, hsame⟩, ih (List.forall_mem_cons.mp ht).2⟩

/-- **What is cached as it was read is valid**, as long as nothing is written. -/
theorem refills_of_follows {pending : CacheKey → Prop} {t : List (Exchange Backend)}
    (h : (unreliable mayFail).Follows w t w') (ht : ∀ e ∈ t, Harmless e.request)
    (horder : OrderlyBut catalog pending t) : w.Refills catalog w' := by
  have hsame : ∀ key, ∀ e ∈ t, ReadsSame mayFail w.store key e := by
    obtain ⟨-, hreads⟩ := follows_reads h fun e he => (ht e he).writes
    exact fun key e he => ⟨w.store, hreads e he, .refl _ key⟩
  refine (onlyCaches_of_follows h ht).mono ?_
  rintro key value ⟨⟨_, a⟩, he, seconds, rfl⟩
  obtain ⟨before, after, rfl⟩ := List.append_of_mem he
  obtain ⟨rest, look, more, rfl, hderived⟩ := horder.filled _ _ key value seconds a rfl
  refine (hderived.exact (hsame key look ?_) fun e he => hsame key e ?_).valid
  · simp
  · simp [he]

/-- **An item whose data nobody changes stays valid**, as long as what is cached is in order,
whether or not removals take effect. -/
theorem valid_of_follows {pending : CacheKey → Prop} {t : List (Exchange Backend)}
    (h : (unreliable mayFail).Follows w t w') (horder : OrderlyBut catalog pending t)
    (hsettled : ∀ e ∈ t, ¬Unsettles key e)
    (hw : ∀ value, w.Holds key value → Cached.Valid w.store catalog key value)
    (hheld : w'.Holds key value) : Cached.Valid w'.store catalog key value := by
  rcases holds_of_follows h hheld with hold | hspoilt | ⟨⟨_, a⟩, he, seconds, rfl⟩
  · exact (sameData_of_follows h hsettled).agrees.valid (hw value hold)
  · exact hspoilt.valid _ _
  · -- What the value was made from was read when the data was as it is.
    have hreads := readsSame_of_mem h hsettled
    obtain ⟨before, after, rfl⟩ := List.append_of_mem he
    obtain ⟨rest, look, more, rfl, hderived⟩ := horder.filled _ _ key value seconds a rfl
    refine (hderived.exact (hreads look ?_) fun e he => hreads e ?_).valid
    · simp
    · simp [he]

/-- **Every value held is exact.** -/
def Exact (catalog : Catalog) (w : World) : Prop :=
  ∀ key value, w.Holds key value → Cached.Exact w.store catalog key value

theorem Exact.coherent (h : w.Exact catalog) : w.Coherent catalog :=
  fun key value _ hheld => (h key value hheld).valid

/-- A world without cached values is exact. -/
theorem exact_of_empty (h : w.cache.entries = ∅) : w.Exact catalog := by
  intro key value hheld
  rw [Holds, h, Table.find?_empty] at hheld
  cases hheld

end World
end AccessControl
