import AccessControl.Proofs.Store.Data
import AccessControl.Proofs.World.Reading

/-! # What makes a cached item wrong

A write that succeeds changes the data of some items, which its answer may be needed to name: a
role that is deleted is taken from the users whom the answer lists.  Every other exchange leaves
the data of an item as it is, whether it is done or fails.
-/
namespace AccessControl
open World

/-- **An exchange has changed the data of an item.** -/
def Unsettles (key : CacheKey) : Exchange Backend → Prop
  | ⟨.createRole _, .ok record⟩ => key = .rolePermissions record.id
  | ⟨.updateRole role _, .ok _⟩ => key = .rolePermissions role
  | ⟨.replaceRoleGrants role _, .ok _⟩ => key = .rolePermissions role
  | ⟨.deleteRole role, .ok users⟩ =>
    key = .rolePermissions role ∨ ∃ user ∈ users, key = .userRoles user
  | ⟨.replaceUserGrants user _, .ok _⟩ => key = .userPermissions user
  | ⟨.replaceUserRoles user _, .ok _⟩ => key = .userRoles user
  | _ => False

variable {key : CacheKey} {e : Exchange Backend} {w w' : World}
  {mayFail : Backend.Request → Bool}

/-- Only a write changes the data of an item. -/
theorem Unsettles.writes (h : Unsettles key e) : e.request.writes = true := by
  obtain ⟨r, a⟩ := e
  cases r <;> first | rfl | exact False.elim h

theorem not_unsettles_of_not_writes (h : e.request.writes = false) : ¬Unsettles key e :=
  fun hunsettles => Bool.false_ne_true (h.symm.trans hunsettles.writes)

namespace World

/-- A write has left the data of an item alone, or it has unsettled the item. -/
theorem sameData_writeGiving {α : Type} {f : Store → Except Failure (α × Store)}
    {P : Except Failure α → Prop} (h : ¬P (writeGiving f w).1)
    (hf : ∀ a store, f w.store = .ok (a, store) → ¬P (.ok a) →
      w.store.SameData store key) : w.store.SameData (writeGiving f w).2.store key := by
  revert h
  refine writeGiving_cases
    (Q := fun a w' => ¬P a → w.store.SameData w'.store key) hf ?_
  exact fun _ _ _ => .refl _ key

theorem sameData_write {f : Store → Except Failure Store} {P : Except Failure Unit → Prop}
    (h : ¬P (World.write f w).1)
    (hf : ∀ store, f w.store = .ok store → ¬P (.ok ()) → w.store.SameData store key) :
    w.store.SameData (World.write f w).2.store key := by
  revert h
  refine write_cases (Q := fun a w' => ¬P a → w.store.SameData w'.store key) hf ?_
  exact fun _ _ _ => .refl _ key

theorem sameData_answer {r : Backend.Request} (h : ¬Unsettles key ⟨r, (World.answer r w).1⟩) :
    w.store.SameData (World.answer r w).2.store key := by
  cases r with
  | createRole new =>
    refine sameData_writeGiving (P := fun a => Unsettles key ⟨.createRole new, a⟩) h ?_
    exact fun record store hstore hkey => Store.sameData_createRole hstore key hkey
  | updateRole role change =>
    refine sameData_write (P := fun a => Unsettles key ⟨.updateRole role change, a⟩) h ?_
    exact fun store hstore hkey => Store.sameData_updateRole hstore key hkey
  | replaceRoleGrants role grants =>
    refine sameData_write (P := fun a => Unsettles key ⟨.replaceRoleGrants role grants, a⟩)
      h ?_
    exact fun store hstore hkey => Store.sameData_replaceRoleGrants hstore key hkey
  | deleteRole role =>
    refine sameData_writeGiving (P := fun a => Unsettles key ⟨.deleteRole role, a⟩) h ?_
    intro users store hstore hkey
    apply Store.sameData_deleteRole hstore key
    · exact fun hrole => hkey (.inl hrole)
    · exact fun user huser heq => hkey (.inr ⟨user, huser, heq⟩)
  | replaceUserGrants user grants =>
    refine sameData_write (P := fun a => Unsettles key ⟨.replaceUserGrants user grants, a⟩)
      h ?_
    exact fun store hstore hkey =>
      Store.sameData_modifyUser hstore key (.inr fun _ => rfl) (.inl hkey)
  | replaceUserRoles user roles =>
    refine sameData_write (P := fun a => Unsettles key ⟨.replaceUserRoles user roles, a⟩)
      h ?_
    exact fun store hstore hkey => Store.sameData_modifyUser (Store.replaceUserRoles_ok hstore) key
      (.inl hkey) (.inr fun _ => rfl)
  | createToken record =>
    refine sameData_write (P := fun _ => False) id fun store hstore _ => ?_
    obtain rfl := Store.createToken_ok hstore
    exact Store.SameData.refl w.store key
  | updateStamp user stamp =>
    refine sameData_write (P := fun _ => False) id fun store hstore _ => ?_
    exact Store.sameData_modifyUser hstore key (.inr fun _ => rfl) (.inr fun _ => rfl)
  | _ => exact Store.SameData.refl w.store key

/-- **What has not changed the data of an item leaves it as it is**, whether it is done or
fails. -/
theorem sameData_of_answers (h : ¬Unsettles key e)
    (ha : (unreliable mayFail).Answers e.request w e.answer w') :
    w.store.SameData w'.store key := by
  obtain ⟨r, a⟩ := e
  obtain ⟨v, hv, ha⟩ := ha
  rw [← hv.store]
  change Answered mayFail r v a w' at ha
  cases ha with
  | served => exact sameData_answer h
  | refused _ _ => exact .refl _ key
  | unconfirmed hcaching _ =>
    apply sameData_answer
    apply not_unsettles_of_not_writes
    cases r <;> first | rfl | cases hcaching

/-- The data of an item stays as it is, as long as nothing changes it. -/
theorem sameData_of_follows {t : List (Exchange Backend)} (h : (unreliable mayFail).Follows w t w')
    (ht : ∀ e ∈ t, ¬Unsettles key e) : w.store.SameData w'.store key :=
  h.invariant (P := fun v => w.store.SameData v.store key)
    (fun e he _ _ ha hv => hv.trans (sameData_of_answers (ht e he) ha)) (.refl _ key)

end World
end AccessControl
