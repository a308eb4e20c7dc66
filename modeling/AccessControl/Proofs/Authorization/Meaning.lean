import AccessControl.Proofs.Authorization.Coherence

/-! # What a resolution means

What a role gives and what a user has, said row by row: a permission is looked for among the
rows, and no set is built.  A prohibition decides against a permission wherever the rows that
allow it stand and however often; a role that is not there gives nothing.  A resolution gives
exactly the names of the catalog that are had in this sense, whatever the cache holds.
-/
namespace AccessControl

namespace Store
variable {s : Store} {catalog : Catalog} {role : RoleId} {user : UserId} {name : String}

/-- **A role gives a permission**: the role is there, no row of it prohibits the permission, and
the role is privileged or has a row that gives it. -/
def RoleGives (s : Store) (role : RoleId) (name : String) : Prop :=
  ∃ record, s.findRole role = some record ∧ ⟨name, false⟩ ∉ s.grantsOfRole role ∧
    (record.isPrivileged = true ∨ ⟨name, true⟩ ∈ s.grantsOfRole role)

/-- **A user has a permission**: no row of the user prohibits it, and a row of the user or one of
the user's roles gives it. -/
def UserHas (s : Store) (user : UserId) (name : String) : Prop :=
  ⟨name, false⟩ ∉ s.grantsOfUser user ∧
    (⟨name, true⟩ ∈ s.grantsOfUser user ∨ ∃ role ∈ s.rolesOfUser user, s.RoleGives role name)

/-- The set of a role has the names of the catalog that the role gives. -/
theorem mem_roleSet_iff {held : NameSet} (h : s.roleSet catalog role = some held) :
    name ∈ held ↔ catalog.contains name = true ∧ s.RoleGives role name := by
  obtain ⟨record, hrecord, rfl⟩ := Option.map_eq_some_iff.mp h
  rw [Role.mem_effective]
  refine and_congr_right fun _ => ⟨fun hgives => ⟨record, hrecord, hgives⟩, ?_⟩
  rintro ⟨found, hfound, hgives⟩
  obtain rfl := Option.some.inj (hrecord.symm.trans hfound)
  exact hgives

/-- A name of the catalog is in the set of some role exactly if one of the roles gives it. -/
theorem exists_mem_roleSets_iff {roles : List RoleId} (hname : catalog.contains name = true) :
    (∃ held ∈ s.roleSets catalog roles, name ∈ held) ↔ ∃ role ∈ roles, s.RoleGives role name := by
  constructor
  · rintro ⟨held, hheld, hmem⟩
    obtain ⟨role, hrole, hset⟩ := List.mem_filterMap.mp hheld
    exact ⟨role, hrole, ((mem_roleSet_iff hset).mp hmem).2⟩
  · rintro ⟨role, hrole, hgives⟩
    obtain ⟨record, hrecord, -⟩ := id hgives
    have hset : s.roleSet catalog role =
        some (record.effective (s.grantsOfRole role) catalog) := by
      rw [roleSet, hrecord, Option.map_some]
    exact ⟨_, List.mem_filterMap.mpr ⟨role, hrole, hset⟩,
      (mem_roleSet_iff hset).mpr ⟨hname, hgives⟩⟩

/-- What is given to a user alone are the names that a row of the user gives and none
prohibits. -/
theorem mem_granted_overrides_iff :
    name ∈ (s.overrides user).granted ↔
      ⟨name, true⟩ ∈ s.grantsOfUser user ∧ ⟨name, false⟩ ∉ s.grantsOfUser user :=
  Overrides.mem_granted_ofRows

theorem mem_prohibited_overrides_iff :
    name ∈ (s.overrides user).prohibited ↔ ⟨name, false⟩ ∈ s.grantsOfUser user :=
  Overrides.mem_prohibited_ofRows

/-- **The permissions of a user are the names of the catalog that the user has.** -/
theorem mem_permissions_iff :
    name ∈ s.permissions catalog user ↔ name ∈ catalog.nameList ∧ s.UserHas user name := by
  rw [permissions, SortedSet.mem_filter, Overrides.mem_effective, and_comm, Catalog.contains_iff]
  refine and_congr_right fun hname => ?_
  rw [mem_granted_overrides_iff, mem_prohibited_overrides_iff,
    exists_mem_roleSets_iff (Catalog.contains_iff.mpr hname)]
  constructor
  · rintro (⟨hgiven, hallowed⟩ | ⟨hallowed, hrole⟩)
    · exact ⟨hallowed, .inl hgiven⟩
    · exact ⟨hallowed, .inr hrole⟩
  · rintro ⟨hallowed, hgiven | hrole⟩
    · exact .inl ⟨hgiven, hallowed⟩
    · exact .inr ⟨hallowed, hrole⟩

end Store

namespace Authorization
open World Outside
variable {d : Deployment} {w : World} {role : RoleId} {user : UserId}

/-- A resolution of a role gives its set, and fails if the role is not there. -/
theorem ensures_resolveRole_eq :
    lossy.Ensures (resolveRole d role).run w fun r _ =>
      r = match w.store.roleSet d.catalog role with
        | some held => .ok held
        | none => .error (Role.missing role) := by
  have hresolves : Resolves d role (resolveRole d role).run := resolves_resolveRole role
  refine (ensures_of_learns keepsOrder_resolveRole hresolves.asks_harmless
    (learns_resolveRole fun _ h => h)).mono fun r v hr => ?_
  rw [hr.1.eq_of_lossy]
  cases w.store.roleSet d.catalog role <;> rfl

/-- The listing of a user's permissions is the catalog without all other definitions. -/
theorem ensures_listGranted_eq :
    lossy.Ensures (listGranted d user).run w fun r _ =>
      r = .ok (d.catalog.definitions.filter fun definition =>
        (w.store.permissions d.catalog user).contains definition.name.text) := by
  have hresolves : Resolves d ⟨0⟩ (listGranted d user).run := resolves_listGranted user
  exact (ensures_of_learns keepsOrder_listGranted hresolves.asks_harmless
    (learns_listGranted fun _ h => h)).mono fun _ _ hr => hr.1.eq_of_lossy

/-- **What a resolution means.**  Whatever is stored and whatever is cached, a resolution of a
user ends in the set of the names of the catalog that the user has by the rows; a listing ends in
the definitions with these names, in the order of the catalog; and a resolution of a role ends in
the set of the names of the catalog that the role gives, or says that there is no such role. -/
theorem resolution_is_by_rows (d : Deployment) (w : World) (user : UserId) (role : RoleId) :
    lossy.Yields (resolveUser d user).run w (fun r _ => ∃ held : NameSet, r = .ok held ∧
      ∀ name, name ∈ held ↔ name ∈ d.catalog.nameList ∧ w.store.UserHas user name) ∧
    lossy.Yields (listGranted d user).run w (fun r _ => ∃ listed, r = .ok listed ∧
      listed.Sublist d.catalog.definitions ∧
      ∀ definition, definition ∈ listed ↔
        definition ∈ d.catalog.definitions ∧ w.store.UserHas user definition.name.text) ∧
    lossy.Yields (resolveRole d role).run w (fun r _ =>
      (w.store.findRole role = none ∧ r = .error (Role.missing role)) ∨
      ∃ (record : Role) (held : NameSet), w.store.findRole role = some record ∧ r = .ok held ∧
        ∀ name, name ∈ held ↔ name ∈ d.catalog.nameList ∧ w.store.RoleGives role name) := by
  refine ⟨yields_of_ensures (ensures_resolveUser.mono fun r _ hr => ?_),
    yields_of_ensures (ensures_listGranted_eq.mono fun r _ hr => ?_),
    yields_of_ensures (ensures_resolveRole_eq.mono fun r _ hr => ?_)⟩
  · exact ⟨_, hr.1, fun name => Store.mem_permissions_iff⟩
  · refine ⟨_, hr, List.filter_sublist, fun definition => ?_⟩
    rw [List.mem_filter]
    refine and_congr_right fun hdefinition => ?_
    have hname : definition.name.text ∈ d.catalog.nameList := List.mem_map_of_mem hdefinition
    rw [SortedSet.contains_iff, Store.mem_permissions_iff, and_iff_right hname]
  · cases hrecord : w.store.findRole role with
    | none =>
      rw [Store.roleSet, hrecord] at hr
      exact .inl ⟨rfl, hr⟩
    | some record =>
      have hset : w.store.roleSet d.catalog role =
          some (record.effective (w.store.grantsOfRole role) d.catalog) := by
        rw [Store.roleSet, hrecord, Option.map_some]
      rw [hset] at hr
      refine .inr ⟨record, _, rfl, hr, fun name => ?_⟩
      rw [Store.mem_roleSet_iff hset, Catalog.contains_iff]

end Authorization
end AccessControl
