import AccessControl.Proofs.Services.Reached

/-! # Administration behind its gate

Each of the nine operations of administration begins with the check that the user who asks for it
has the permission that it needs (`Operation.gated`); nothing is looked up or checked before.  In a
world that the services lead to, the check comes to what a resolution of the user would come to,
even if it is answered from the cache.  So a user without the permission is refused, and the
refusal names the user and the permission and depends on nothing else
(`Operation.ensures_refused`).
-/
namespace AccessControl

namespace Authorization
open World Outside
variable {d : Deployment} {mayFail : Backend.Request → Bool} {s : Store} {w : World}
  {user : UserId} {name : String}

/-- A user who has not a permission of the catalog fails the check for it. -/
theorem learns_requirePermission_lacks {P : Exchange Backend → Prop}
    (hP : ∀ e, P e → Tells mayFail d.catalog s e) (hknown : d.catalog.contains name = true)
    (hlacks : name ∉ s.permissions d.catalog user) :
    Learns (ByStores mayFail) P (requirePermission d user name) (.error (lacks user name)) := by
  have hlearns : Learns (ByStores mayFail) P (requirePermission d user name) _ :=
    learns_requirePermission hP name
  have hcheck : d.catalog.ensureKnown [name] = .ok () :=
    Catalog.ensureKnown_of_contains (by simpa using hknown)
  have hnot : (s.permissions d.catalog user).contains name = false := by
    simpa [SortedSet.contains] using hlacks
  rw [hcheck, hnot] at hlearns
  exact hlearns

/-- **In a coherent world whoever has not a permission of the catalog fails the check for it**,
whether it is answered from the cache or not, and nothing is written. -/
theorem ensures_requirePermission_lacks (hw : w.Coherent d.catalog)
    (hknown : d.catalog.contains name = true) (hlacks : name ∉ w.store.permissions d.catalog user) :
    lossy.Ensures (requirePermission d user name).run w fun r w' =>
      r = .error (lacks user name) ∧ w.Refills d.catalog w' := by
  have hresolves : Resolves d ⟨0⟩ (requirePermission d user name).run :=
    resolves_requirePermission user name
  refine (hw.ensures_of_learns (keepsOrder_requirePermission user name) hresolves.asks_harmless
    (learns_requirePermission_lacks (fun _ h => h) hknown hlacks)).mono fun _ _ hr => ?_
  exact ⟨hr.1.eq_of_lossy, hr.2⟩

/-- What is said of the set that a resolution of a user ends in is said of what follows from the
store. -/
theorem of_yields_resolveUser {P : NameSet → Prop}
    (h : lossy.Yields (resolveUser d user).run w fun r _ => ∃ held, r = .ok held ∧ P held) :
    P (w.store.permissions d.catalog user) := by
  obtain ⟨hensures, t, r, w', ht, hf⟩ := h
  obtain ⟨held, hheld, hsaid⟩ := hensures t r w' ht hf
  obtain ⟨rfl, -⟩ := ensures_resolveUser t r w' ht hf
  obtain rfl := Except.ok.inj hheld
  exact hsaid

/-- A resolution does not give what does not follow from the store. -/
theorem yields_resolveUser_lacks (hlacks : name ∉ w.store.permissions d.catalog user) :
    lossy.Yields (resolveUser d user).run w fun r _ => ∃ held, r = .ok held ∧ name ∉ held :=
  yields_of_ensures (ensures_resolveUser.mono fun _ _ hr => ⟨_, hr.1, hlacks⟩)

end Authorization

namespace Administration
open World Outside Authorization Services

/-- What a user asks administration for. -/
inductive Operation where
  | createRole (name displayName : String) (granted : List String)
  | renameRole (role : RoleId) (name displayName : String)
  | setRolePermissions (role : RoleId) (granted : List String)
  | deleteRole (role : RoleId)
  | listRoleGrants (role : RoleId)
  | setUserPermissions (user : UserId) (changes : List Grant)
  | setUserGrantedPermissions (user : UserId) (granted : List String)
  | resetUserPermissions (user : UserId)
  | setUserRoles (user : UserId) (roles : List RoleId)

namespace Operation
variable {d : Deployment} {actor : UserId} {w w' : World}

/-- What an operation results in if it succeeds. -/
def Result : Operation → Type
  | .createRole _ _ _ => Role
  | .renameRole _ _ _ => Role
  | .listRoleGrants _ => List Grant
  | _ => Unit

/-- The service that a user calls. -/
def service (d : Deployment) (actor : UserId) : (op : Operation) → Service op.Result
  | .createRole name displayName granted =>
    Administration.createRole d actor name displayName granted
  | .renameRole role name displayName => Administration.renameRole d actor role name displayName
  | .setRolePermissions role granted => Administration.setRolePermissions d actor role granted
  | .deleteRole role => Administration.deleteRole d actor role
  | .listRoleGrants role => Administration.listRoleGrants d actor role
  | .setUserPermissions user changes => Administration.setUserPermissions d actor user changes
  | .setUserGrantedPermissions user granted =>
    Administration.setUserGrantedPermissions d actor user granted
  | .resetUserPermissions user => Administration.resetUserPermissions d actor user
  | .setUserRoles user roles => Administration.setUserRoles d actor user roles

/-- The permission that an operation needs, whatever its arguments are. -/
def needs : Operation → String
  | .createRole _ _ _ => Permission.createRoles
  | .renameRole _ _ _ => Permission.editRoles
  | .setRolePermissions _ _ => Permission.editRoles
  | .deleteRole _ => Permission.deleteRoles
  | .listRoleGrants _ => Permission.listRoles
  | .setUserPermissions _ _ => Permission.changeUserPermissions
  | .setUserGrantedPermissions _ _ => Permission.changeUserPermissions
  | .resetUserPermissions _ => Permission.changeUserPermissions
  | .setUserRoles _ _ => Permission.editUsers

/-- **Every operation begins with the check for the permission that it needs.** -/
theorem gated (d : Deployment) (actor : UserId) (op : Operation) :
    ∃ rest : Unit → Service op.Result,
      op.service d actor = requirePermission d actor op.needs >>= rest := by
  cases op <;> exact ⟨_, rfl⟩

/-- **Whoever has not the permission that an operation needs is refused**, and nothing is
written. -/
theorem ensures_refused (op : Operation) (hw : w.Coherent d.catalog)
    (hknown : d.catalog.contains op.needs = true)
    (hlacks : op.needs ∉ w.store.permissions d.catalog actor) :
    lossy.Ensures (op.service d actor).run w fun r w' =>
      r = .error (lacks actor op.needs) ∧ w'.store = w.store := by
  obtain ⟨rest, hgated⟩ := op.gated d actor
  rw [hgated, ensures_run_bind]
  refine (ensures_requirePermission_lacks hw hknown hlacks).mono fun r v hr => ?_
  obtain ⟨rfl, hrefills⟩ := hr
  exact ⟨rfl, hrefills.store⟩

end Operation

/-- **A world in which a user may not do something**: the services have led to it, and a resolution
of the user ends in a set without the permission. -/
structure Unauthorized (d : Deployment) (actor : UserId) (name : String) (w : World) : Prop where
  reached : ∃ start : World, start.store.Sound ∧ start.cache.entries = ∅ ∧
    Reached d Session.mayFail start w
  lacks : lossy.Yields (resolveUser d actor).run w fun r _ => ∃ held, r = .ok held ∧ name ∉ held

namespace Unauthorized
variable {d : Deployment} {actor : UserId} {name : String} {w : World}

theorem coherent (h : Unauthorized d actor name w) : w.Coherent d.catalog := by
  obtain ⟨start, hsound, hempty, hreached⟩ := h.reached
  exact hreached.coherent (fun _ => rfl) hempty hsound

/-- The permission does not follow from the store. -/
theorem not_mem (h : Unauthorized d actor name w) : name ∉ w.store.permissions d.catalog actor :=
  of_yields_resolveUser h.lacks

end Unauthorized

namespace Operation
variable {d : Deployment} {actor : UserId} {w w' : World}

/-- **Who may not do a thing changes nothing and learns nothing by trying.**  In two worlds that the
services lead to, for two operations that need the same permission of the catalog, so in particular
for the same operation with any arguments, a user who has not the permission gets the same refusal,
and the stores are as before. -/
theorem refused_alike (op op' : Operation) (hsame : op'.needs = op.needs)
    (hknown : d.catalog.contains op.needs = true)
    (hw : Unauthorized d actor op.needs w) (hw' : Unauthorized d actor op'.needs w') :
    ∃ message : String,
      lossy.Yields (op.service d actor).run w (fun r v =>
        r = .error (.forbidden message) ∧ v.store = w.store) ∧
      lossy.Yields (op'.service d actor).run w' (fun r v =>
        r = .error (.forbidden message) ∧ v.store = w'.store) := by
  refine ⟨_, yields_of_ensures (op.ensures_refused hw.coherent hknown hw.not_mem), ?_⟩
  rw [← hsame] at hknown ⊢
  exact yields_of_ensures (op'.ensures_refused hw'.coherent hknown hw'.not_mem)

/-- The only user gives the privileged role up. -/
def resigned : Except Failure Unit × World :=
  World.run (Administration.setUserRoles editing ⟨1⟩ ⟨1⟩ []).run oneAdmin

/-- A world with nobody but a user without roles. -/
def newcomer : World := (World.createUser "bob" (World.ofStore Store.empty)).2

theorem unauthorized_resigned : Unauthorized editing ⟨1⟩ Permission.editRoles resigned.2 := by
  have hreached : Reached editing Session.mayFail oneAdmin resigned.2 :=
    Reached.start.run (.administration (.setUserRoles ⟨1⟩ ⟨1⟩ []))
  exact ⟨⟨oneAdmin, sound_oneAdmin, rfl, hreached⟩, yields_resolveUser_lacks (by decide +kernel)⟩

theorem unauthorized_newcomer : Unauthorized editing ⟨1⟩ Permission.editRoles newcomer :=
  ⟨⟨World.ofStore Store.empty, .empty, rfl, Reached.start.user "bob"⟩,
    yields_resolveUser_lacks (by decide +kernel)⟩

/-- Whether the role is there and the names are known makes no difference. -/
theorem refused_alike_when_resigned :
    resigned.1 = .ok () ∧ editing.catalog.contains Permission.editRoles = true ∧
      ∃ message : String,
        lossy.Yields ((renameRole ⟨1⟩ "Staff" "Staff").service editing ⟨1⟩).run resigned.2
          (fun r v => r = .error (.forbidden message) ∧ v.store = resigned.2.store) ∧
        lossy.Yields ((setRolePermissions ⟨7⟩ ["Nothing"]).service editing ⟨1⟩).run newcomer
          (fun r v => r = .error (.forbidden message) ∧ v.store = newcomer.store) := by
  have hknown : editing.catalog.contains Permission.editRoles = true := by decide +kernel
  refine ⟨by decide +kernel, hknown, ?_⟩
  exact refused_alike (renameRole ⟨1⟩ "Staff" "Staff") (setRolePermissions ⟨7⟩ ["Nothing"]) rfl
    hknown unauthorized_resigned unauthorized_newcomer

end Operation
end Administration
end AccessControl
