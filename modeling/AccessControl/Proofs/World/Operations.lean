import AccessControl.Proofs.World.Writes
import Mathlib.Data.List.Permutation

/-! # The store under its own operations

Whoever holds the store can call eleven operations that change it, in any order and with any
arguments.  Each checks its arguments first: if it fails, nothing has changed
(`Operation.step_eq_of_error`).  If it succeeds, the parts of the store fit together as before,
and the store is a later one (`Store.Proceeds`); so both hold of every run, by induction on its
operations.
-/
namespace AccessControl

namespace World
variable {w : World}

theorem eq_of_writeGiving_error {α : Type} {f : Store → Except Failure (α × Store)}
    {failure : Failure} (h : (writeGiving f w).1 = .error failure) : (writeGiving f w).2 = w := by
  unfold writeGiving at h ⊢
  split at h
  · cases h
  · simp_all

/-- **Whatever is asked of the store, its parts fit together afterwards as before.** -/
theorem proceeds_answer (r : Backend.Request) :
    w.store.Proceeds (World.answer r w).2.store := by
  rcases store_answer_cases r w with hsame | hwrote
  · exact .of_eq hsame
  · exact hwrote.proceeds

/-- A user is stored, or nothing happens. -/
theorem createUser_cases (name : String) (w : World) :
    (∃ user stamp store, w.store.createUser name stamp = .ok (user, store) ∧
      World.createUser name w = (.ok (user, stamp), { w with store, drawn := w.drawn + 1 })) ∨
    ∃ failure, World.createUser name w = (.error failure, w) := by
  simp only [World.createUser]
  split
  · rename_i user store h
    exact .inl ⟨user, _, store, h, rfl⟩
  · exact .inr ⟨_, rfl⟩

/-- What the store keeps when a user is stored in it, it keeps whether or not one is stored. -/
theorem store_createUser_of {P : Store → Prop} {name : String} (hw : P w.store)
    (hstored : ∀ user stamp store, w.store.createUser name stamp = .ok (user, store) → P store) :
    P (World.createUser name w).2.store := by
  rcases createUser_cases name w with ⟨user, stamp, store, h, hcreated⟩ | ⟨failure, hfailed⟩
  · rw [hcreated]
    exact hstored user stamp store h
  · rw [hfailed]
    exact hw

theorem proceeds_createUser (name : String) :
    w.store.Proceeds (World.createUser name w).2.store :=
  store_createUser_of (.refl _) fun _ _ _ h => ⟨(·.createUser h), .createUser h⟩

/-! ## Operations -/

/-- An operation of the store that may change it. -/
inductive Operation where
  | createUser (name : String)
  | createRole (role : NewRole)
  | updateRole (role : RoleId) (change : RoleChange)
  | replaceRoleGrants (role : RoleId) (grants : List Grant)
  | deleteRole (role : RoleId)
  | replaceUserGrants (user : UserId) (grants : List Grant)
  | replaceUserRoles (user : UserId) (roles : List RoleId)
  | createToken (record : Token.Record)
  | deleteToken (user : UserId) (key : TokenKey)
  | deleteTokens (user : UserId)
  | updateStamp (user : UserId) (stamp : SecurityStamp)

namespace Operation

/-- What an operation gives if it succeeds. -/
def Result : Operation → Type
  | .createUser _ => UserId × SecurityStamp
  | .createRole _ => Role
  | .deleteRole _ => List UserId
  | .deleteToken _ _ => Bool
  | .deleteTokens _ => Nat
  | _ => Unit

/-- How a world answers an operation. -/
def step : (op : Operation) → Step (Except Failure op.Result)
  | .createUser name => World.createUser name
  | .createRole role => World.answer (.createRole role)
  | .updateRole role change => World.answer (.updateRole role change)
  | .replaceRoleGrants role grants => World.answer (.replaceRoleGrants role grants)
  | .deleteRole role => World.answer (.deleteRole role)
  | .replaceUserGrants user grants => World.answer (.replaceUserGrants user grants)
  | .replaceUserRoles user roles => World.answer (.replaceUserRoles user roles)
  | .createToken record => World.answer (.createToken record)
  | .deleteToken user key => World.answer (.deleteToken user key)
  | .deleteTokens user => World.answer (.deleteTokens user)
  | .updateStamp user stamp => World.answer (.updateStamp user stamp)

@[simp] theorem step_createUser (name : String) :
    (Operation.createUser name).step = World.createUser name := rfl

/-- **An operation that fails leaves the whole world as it was.** -/
theorem step_eq_of_error (op : Operation) {failure : Failure}
    (h : (op.step w).1 = .error failure) : (op.step w).2 = w := by
  cases op with
  | createUser name =>
    rw [step_createUser] at h ⊢
    rcases createUser_cases name w with ⟨user, stamp, store, -, hcreated⟩ | ⟨failure, hfailed⟩
    · rw [hcreated] at h
      cases h
    · rw [hfailed]
  | _ => exact eq_of_writeGiving_error h

theorem proceeds_step (op : Operation) : w.store.Proceeds (op.step w).2.store := by
  cases op with
  | createUser name =>
    have hworld : ((Operation.createUser name).step w).2 = (World.createUser name w).2 := rfl
    rw [hworld]
    exact proceeds_createUser name
  | _ => exact proceeds_answer _

end Operation

/-- The world after operations, the first one first. -/
def after (ops : List Operation) (w : World) : World :=
  ops.foldl (fun w op => (op.step w).2) w

theorem after_nil : after [] w = w := rfl

theorem after_cons (op : Operation) (ops : List Operation) :
    after (op :: ops) w = after ops (op.step w).2 := rfl

theorem after_append (ops later : List Operation) :
    after (ops ++ later) w = after later (after ops w) := List.foldl_append

theorem proceeds_after (ops : List Operation) : w.store.Proceeds (after ops w).store := by
  induction ops generalizing w with
  | nil => exact .refl _
  | cons op ops ih => exact (Operation.proceeds_step op).trans ih

/-! ## What has happened if an operation succeeds -/

theorem writeGiving_ok {α : Type} {f : Store → Except Failure (α × Store)} {a : α}
    (h : (writeGiving f w).1 = .ok a) : f w.store = .ok (a, (writeGiving f w).2.store) := by
  unfold writeGiving at h ⊢
  split at h
  · rename_i hf
    cases h
    rw [hf]
  · cases h

theorem createUser_ok {name : String} {user : UserId} {stamp : SecurityStamp}
    (h : (World.createUser name w).1 = .ok (user, stamp)) :
    w.store.createUser name stamp = .ok (user, (World.createUser name w).2.store) := by
  rcases createUser_cases name w with ⟨user, stamp, store, hstored, hcreated⟩ | ⟨failure, hfailed⟩
  · rw [hcreated] at h ⊢
    cases h
    exact hstored
  · rw [hfailed] at h
    cases h

/-- **What holds of the store at any time of any run that begins with the empty store**: its parts
fit together; an operation that fails changes nothing; a new user is stored under the number that
is answered; and the number of a role that has been deleted is never given again. -/
theorem sound_and_atomic (hw : w.store = Store.empty) (ops : List Operation) :
    (after ops w).store.Sound ∧
    (∀ (op : Operation) failure, (op.step (after ops w)).1 = .error failure →
      (op.step (after ops w)).2 = after ops w) ∧
    (∀ name user stamp,
      ((Operation.createUser name).step (after ops w)).1 = .ok (user, stamp) →
      (after (ops ++ [.createUser name]) w).store.users.find? user =
        some ⟨trim name, stamp, [], []⟩) ∧
    (∀ role users, ((Operation.deleteRole role).step (after ops w)).1 = .ok users →
      ∀ later new record,
        ((Operation.createRole new).step (after (ops ++ .deleteRole role :: later) w)).1 =
          .ok record →
        record.id ≠ role) := by
  have hsound : (after ops w).store.Sound := (proceeds_after ops).sound (hw ▸ .empty)
  refine ⟨hsound, fun op _ h => op.step_eq_of_error h, ?_, ?_⟩
  · intro name user stamp h
    rw [Operation.step_createUser] at h
    obtain ⟨-, hstore⟩ := Store.createUser_ok (createUser_ok h)
    rw [after_append, after_cons, after_nil, Operation.step_createUser, hstore,
      Table.find?_insert, if_pos rfl]
  · intro role users h later new record hnew
    rw [after_append, after_cons] at hnew
    -- The number is an old one when the role is deleted, and the counter only goes up.
    obtain ⟨-, hold⟩ := Store.deleted_of_deleteRole hsound (writeGiving_ok h)
    have hlater := (proceeds_after (w := ((Operation.deleteRole role).step (after ops w)).2)
      later).later
    exact Store.ne_of_createRole (Int64.le_trans hold hlater.lastRole) (writeGiving_ok hnew)

/-- A role that is created, deleted and created again. -/
theorem sound_and_atomic_across_deletion :
    let staff : NewRole := ⟨"Staff", "Staff", false, []⟩
    let w := World.ofStore Store.empty
    (after [.createRole staff, .deleteRole ⟨1⟩] w).store.Sound ∧
      ((Operation.createRole staff).step (after [.createRole staff, .deleteRole ⟨1⟩] w)).1 =
        .ok ⟨⟨2⟩, "Staff", "Staff", false⟩ ∧
      (⟨2⟩ : RoleId) ≠ ⟨1⟩ := by
  intro staff w
  have hempty : w.store = Store.empty := rfl
  have hdeleted : ((Operation.deleteRole ⟨1⟩).step (after [.createRole staff] w)).1 = .ok [] := by
    cbv
  have hagain : ((Operation.createRole staff).step
      (after [.createRole staff, .deleteRole ⟨1⟩] w)).1 = .ok ⟨⟨2⟩, "Staff", "Staff", false⟩ := by
    cbv
  refine ⟨(sound_and_atomic hempty _).1, hagain, ?_⟩
  exact (sound_and_atomic hempty [.createRole staff]).2.2.2 ⟨1⟩ [] hdeleted [] staff _ hagain

end World
end AccessControl
