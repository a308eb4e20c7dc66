import AccessControl.Proofs.Services.Authorized

/-! # Users are listed in the order of their numbers

A table lists its keys in the order in which they came.  The number of a new user is above all that
were given, so it comes last; and no request to the store brings or takes a user or changes their
order (`Backend.Request.Wrote.users_keys`).  So wherever the services lead from a store with its
users in order, the users are in order, and with them the users who have a role
(`Store.InOrder.usersWith`).
-/
namespace AccessControl

namespace Table
variable {κ ν : Type} {t : Table κ ν}

@[simp] theorem keys_mapValues (f : κ → ν → ν) : (t.mapValues f).keys = t.keys := by
  simp [keys, mapValues, Function.comp_def]

variable [DecidableEq κ]

@[simp] theorem keys_modify (k : κ) (f : ν → ν) : (t.modify k f).keys = t.keys :=
  keys_mapValues _

/-- A new key is the last one. -/
theorem keys_insert_of_new {k : κ} (h : t.find? k = none) (v : ν) :
    (t.insert k v).keys = t.keys ++ [k] := by
  rw [insert, dif_neg (find?_eq_none.mp h), keys, List.map_append]
  rfl

theorem mem_keys_iff {k : κ} : k ∈ t.keys ↔ t.contains k = true := by
  rw [contains, Option.isSome_iff_ne_none, ne_eq, find?_eq_none, not_not]

end Table

namespace Store
variable {s s' : Store} {user : UserId} {role : RoleId}

/-- **The users of a store are listed in the order of their numbers.** -/
def InOrder (s : Store) : Prop := s.users.keys.Pairwise fun a b => a.number < b.number

theorem keys_modifyUser {change : StoredUser → StoredUser} (h : s.modifyUser user change = .ok s') :
    s'.users.keys = s.users.keys := by
  obtain ⟨-, rfl⟩ := modifyUser_ok h
  exact Table.keys_modify user change

namespace InOrder

theorem empty : Store.empty.InOrder := .nil

theorem of_keys (hs : s.InOrder) (h : s'.users.keys = s.users.keys) : s'.InOrder := by
  rw [InOrder, h]
  exact hs

/-- **A new user comes last**, with a number above all others. -/
theorem createUser {name : String} {stamp : SecurityStamp} (hs : s.InOrder) (hsound : s.Sound)
    (h : s.createUser name stamp = .ok (user, s')) : s'.InOrder := by
  have hnew := find?_of_createUser hsound h
  obtain ⟨⟨-, hnext⟩, rfl⟩ := createUser_ok h
  rw [InOrder, Table.keys_insert_of_new hnew, List.pairwise_append]
  refine ⟨hs, List.pairwise_singleton _ _, fun old hold last hlast => ?_⟩
  obtain rfl := List.mem_singleton.mp hlast
  have hgiven := (hsound.userNumbers old (Table.mem_keys_iff.mp hold)).2
  exact Int64.lt_of_le_of_lt hgiven (lt_of_next hnext)

/-- **The users who have a role are listed in order**, each once. -/
theorem usersWith (hs : s.InOrder) (role : RoleId) :
    (s.usersWith role).Pairwise fun a b => a.number < b.number :=
  hs.sublist (List.filter_sublist.map Prod.fst)

end InOrder
end Store

/-- **No request brings or takes a user, or changes the order of the users.** -/
theorem Backend.Request.Wrote.users_keys {r : Backend.Request} {s s' : Store} (h : r.Wrote s s') :
    s'.users.keys = s.users.keys := by
  cases r with
  | createRole new =>
    obtain ⟨record, h⟩ := h
    obtain ⟨-, rfl⟩ := Store.createRole_ok h
    rfl
  | updateRole role change =>
    obtain ⟨-, rfl⟩ := Store.updateRole_ok h
    rfl
  | replaceRoleGrants role grants =>
    obtain ⟨-, rfl⟩ := Store.replaceRoleGrants_ok h
    rfl
  | deleteRole role =>
    obtain ⟨users, h⟩ := h
    obtain ⟨-, rfl⟩ := Store.deleteRole_ok h
    exact Table.keys_mapValues _
  | replaceUserGrants user grants => exact Store.keys_modifyUser h
  | replaceUserRoles user roles => exact Store.keys_modifyUser (Store.replaceUserRoles_ok h)
  | createToken record =>
    obtain rfl := Store.createToken_ok h
    rfl
  | deleteToken user key =>
    obtain rfl := h
    rfl
  | deleteTokens user =>
    obtain rfl := h
    rfl
  | updateStamp user stamp => exact Store.keys_modifyUser h
  | _ => exact h.elim

namespace World
variable {mayFail : Backend.Request → Bool} {w w' : World}

theorem inOrder_answer (hw : w.store.InOrder) (r : Backend.Request) :
    (World.answer r w).2.store.InOrder := by
  rcases store_answer_cases r w with hsame | hwrote
  · rw [hsame]
    exact hw
  · exact hw.of_keys hwrote.users_keys

theorem inOrder_createUser (hw : w.store.InOrder) (hsound : w.store.Sound) (name : String) :
    (World.createUser name w).2.store.InOrder :=
  store_createUser_of hw fun _ _ _ => hw.createUser hsound

/-- **In every run the users stay in order.** -/
theorem inOrder_of_follows {t : List (Exchange Backend)} (hw : w.store.InOrder)
    (h : (unreliable mayFail).Follows w t w') : w'.store.InOrder := by
  refine h.invariant (P := fun v => v.store.InOrder) (fun _ _ v v' ha hv => ?_) hw
  rcases store_of_answers_cases ha with hsame | hwrote
  · rw [hsame]
    exact hv
  · exact hv.of_keys hwrote.users_keys

/-- Whatever is asked of the store itself, the users stay in order. -/
theorem inOrder_after (hw : w.store.InOrder) (hsound : w.store.Sound) (ops : List Operation) :
    (after ops w).store.InOrder := by
  induction ops generalizing w with
  | nil => exact hw
  | cons op ops ih =>
    refine ih ?_ ((Operation.proceeds_step op).sound hsound)
    cases op with
    | createUser name => exact inOrder_createUser hw hsound name
    | _ => exact inOrder_answer hw _

end World

namespace Services
open World
variable {d : Deployment} {mayFail : Backend.Request → Bool} {start w : World}

/-- **The users stay in order wherever the services lead.** -/
theorem Reached.inOrder (h : Reached d mayFail start w) (hsound : start.store.Sound)
    (hstart : start.store.InOrder) : w.store.InOrder := by
  induction h with
  | start => exact hstart
  | drift h hw ih =>
    rw [hw.store]
    exact ih
  | user h name ih => exact inOrder_createUser ih (h.proceeds.sound hsound) name
  | call h c ht hf ih => exact inOrder_of_follows ih hf

/-- **The services have led to a world**, from a store whose parts fit together and whose users are
in order, and an empty cache, whatever failed on the way. -/
def ReachableInOrder (d : Deployment) (w : World) : Prop :=
  ∃ start : World, (start.store.Sound ∧ start.store.InOrder) ∧ start.cache.entries = ∅ ∧
    Reached d Session.mayFail start w

namespace ReachableInOrder

theorem reachable (h : ReachableInOrder d w) : Reachable d w := by
  obtain ⟨start, ⟨hsound, -⟩, hempty, hreached⟩ := h
  exact ⟨start, hsound, hempty, hreached⟩

theorem inOrder (h : ReachableInOrder d w) : w.store.InOrder := by
  obtain ⟨start, ⟨hsound, horder⟩, -, hreached⟩ := h
  exact hreached.inOrder hsound horder

theorem of_oneAdmin : ReachableInOrder d oneAdmin :=
  ⟨oneAdmin, ⟨sound_oneAdmin, inOrder_after .empty .empty _⟩, rfl, .start⟩

end ReachableInOrder
end Services
end AccessControl
