import AccessControl.Proofs.Store.Sound
import AccessControl.Proofs.World.Unreliable

/-! # What a request may make of the store

A request leaves the store as it is, or it is one of the ten that write, and then the store is what
its write gives (`Backend.Request.Wrote`).  So whatever every write keeps, every answer keeps,
reliable or not; in particular the parts of the store go on fitting together.
-/
namespace AccessControl

/-- **A request has written**: one store is what the other becomes by the write. -/
def Backend.Request.Wrote : Backend.Request → Store → Store → Prop
  | .createRole new, s, s' => ∃ record, s.createRole new = .ok (record, s')
  | .updateRole role change, s, s' => s.updateRole role change = .ok s'
  | .replaceRoleGrants role grants, s, s' => s.replaceRoleGrants role grants = .ok s'
  | .deleteRole role, s, s' => ∃ users, s.deleteRole role = .ok (users, s')
  | .replaceUserGrants user grants, s, s' => s.replaceUserGrants user grants = .ok s'
  | .replaceUserRoles user roles, s, s' => s.replaceUserRoles user roles = .ok s'
  | .createToken record, s, s' => s.createToken record = .ok s'
  | .deleteToken user key, s, s' => s' = (s.deleteToken user key).2
  | .deleteTokens user, s, s' => s' = (s.deleteTokens user).2
  | .updateStamp user stamp, s, s' => s.updateStamp user stamp = .ok s'
  | _, _, _ => False

/-- **After every write the parts of the store fit together as before.** -/
theorem Backend.Request.Wrote.proceeds {r : Backend.Request} {s s' : Store} (h : r.Wrote s s') :
    s.Proceeds s' := by
  cases r with
  | createRole new =>
    obtain ⟨record, h⟩ := h
    exact ⟨(·.createRole h), .createRole h⟩
  | updateRole role change => exact ⟨(·.updateRole h), .updateRole h⟩
  | replaceRoleGrants role grants => exact ⟨(·.replaceRoleGrants h), .replaceRoleGrants h⟩
  | deleteRole role =>
    obtain ⟨users, h⟩ := h
    exact ⟨(·.deleteRole h), .deleteRole h⟩
  | replaceUserGrants user grants => exact ⟨(·.replaceUserGrants h), .modifyUser h⟩
  | replaceUserRoles user roles =>
    exact ⟨(·.replaceUserRoles h), .modifyUser (Store.replaceUserRoles_ok h)⟩
  | createToken record => exact ⟨(·.createToken h), .createToken h⟩
  | deleteToken user key =>
    obtain rfl := h
    exact ⟨(·.deleteToken key), .deleteToken s user key⟩
  | deleteTokens user =>
    obtain rfl := h
    exact ⟨(·.deleteTokens), .deleteTokens s user⟩
  | updateStamp user stamp => exact ⟨(·.updateStamp h), .modifyUser h⟩
  | _ => exact h.elim

namespace World
variable {mayFail : Backend.Request → Bool} {w w' : World} {r : Backend.Request}

theorem store_writeGiving_cases {α : Type} (f : Store → Except Failure (α × Store)) (w : World) :
    (writeGiving f w).2.store = w.store ∨
      ∃ a, f w.store = .ok (a, (writeGiving f w).2.store) :=
  writeGiving_cases (Q := fun _ w' => w'.store = w.store ∨ ∃ a, f w.store = .ok (a, w'.store))
    (fun a _ h => .inr ⟨a, h⟩) fun _ _ => .inl rfl

theorem store_write_cases (f : Store → Except Failure Store) (w : World) :
    (World.write f w).2.store = w.store ∨ f w.store = .ok (World.write f w).2.store :=
  write_cases (Q := fun _ w' => w'.store = w.store ∨ f w.store = .ok w'.store)
    (fun _ h => .inr h) fun _ _ => .inl rfl

/-- **A request leaves the store as it is, or it has written.** -/
theorem store_answer_cases (r : Backend.Request) (w : World) :
    (World.answer r w).2.store = w.store ∨ r.Wrote w.store (World.answer r w).2.store := by
  cases r with
  | createRole new => exact store_writeGiving_cases (·.createRole new) w
  | updateRole role change => exact store_write_cases (·.updateRole role change) w
  | replaceRoleGrants role grants => exact store_write_cases (·.replaceRoleGrants role grants) w
  | deleteRole role => exact store_writeGiving_cases (·.deleteRole role) w
  | replaceUserGrants user grants => exact store_write_cases (·.replaceUserGrants user grants) w
  | replaceUserRoles user roles => exact store_write_cases (·.replaceUserRoles user roles) w
  | createToken record => exact store_write_cases (·.createToken record) w
  | deleteToken user key => exact .inr rfl
  | deleteTokens user => exact .inr rfl
  | updateStamp user stamp => exact store_write_cases (·.updateStamp user stamp) w
  | _ => exact .inl rfl

/-- **However a request is answered, it leaves the store as it is, or it has written.** -/
theorem store_of_answers_cases {a : Backend.Answer r}
    (h : (unreliable mayFail).Answers r w a w') :
    w'.store = w.store ∨ r.Wrote w.store w'.store := by
  obtain ⟨v, hv, hw⟩ := done_or_not_of_answers h
  rw [← hv.store]
  rcases hw with rfl | rfl
  · exact store_answer_cases r v
  · exact .inl rfl

theorem proceeds_of_answers {a : Backend.Answer r} (h : (unreliable mayFail).Answers r w a w') :
    w.store.Proceeds w'.store := by
  rcases store_of_answers_cases h with hsame | hwrote
  · exact .of_eq hsame
  · exact hwrote.proceeds

/-- **In every run the parts of the store go on fitting together.** -/
theorem proceeds_of_follows {t : List (Exchange Backend)}
    (h : (unreliable mayFail).Follows w t w') : w.store.Proceeds w'.store :=
  h.invariant (P := fun v => w.store.Proceeds v.store)
    (fun _ _ _ _ ha hv => hv.trans (proceeds_of_answers ha)) (.refl _)

end World
end AccessControl
