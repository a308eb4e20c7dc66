import AccessControl.Proofs.Administration.Coherence
import AccessControl.Proofs.World.Reading

/-! # What a request touches

A store says five things besides which tokens there are: which roles there are, what rows a role
has, what rows a user has, what roles a user has, and what the stamp of a user is.  Each is an
aspect of the store, and a request touches few of them; all others are the same after it as
before, whether it is done or fails.
-/
namespace AccessControl

/-- One thing that a store says about a role or about a user. -/
inductive Aspect where
  | role (role : RoleId)
  | roleGrants (role : RoleId)
  | overrides (user : UserId)
  | assignments (user : UserId)
  | stamp (user : UserId)
  deriving DecidableEq

/-- Two stores say the same about an aspect. -/
def Store.SameIn (s s' : Store) : Aspect → Prop
  | .role role => s'.findRole role = s.findRole role
  | .roleGrants role => s'.grantsOfRole role = s.grantsOfRole role
  | .overrides user => s'.grantsOfUser user = s.grantsOfUser user
  | .assignments user => s'.rolesOfUser user = s.rolesOfUser user
  | .stamp user => s'.stampOf user = s.stampOf user

/-- A request may change what a store says.  Storing, changing and removing a role count as
touching everything. -/
def Backend.Request.Touches : Backend.Request → Aspect → Prop
  | .createRole _, _ => True
  | .updateRole _ _, _ => True
  | .deleteRole _, _ => True
  | .replaceRoleGrants role _, aspect => aspect = .roleGrants role
  | .replaceUserGrants user _, aspect => aspect = .overrides user
  | .replaceUserRoles user _, aspect => aspect = .assignments user
  | .updateStamp user _, aspect => aspect = .stamp user
  | _, _ => False

namespace Store
variable {s s' s'' : Store} {aspect : Aspect}

theorem SameIn.refl (s : Store) (aspect : Aspect) : s.SameIn s aspect := by
  cases aspect <;> rfl

theorem SameIn.trans (h : s.SameIn s' aspect) (h' : s'.SameIn s'' aspect) :
    s.SameIn s'' aspect := by
  cases aspect <;> exact Eq.trans h' h

/-- Stores with the same roles and the same users say the same. -/
theorem sameIn_of_tables (hroles : s'.roles = s.roles) (hgrants : s'.roleGrants = s.roleGrants)
    (husers : s'.users = s.users) : s.SameIn s' aspect := by
  cases aspect with
  | role role =>
    show s'.roles.find? role = s.roles.find? role
    rw [hroles]
  | roleGrants role =>
    show (s'.roleGrants.find? role).getD [] = (s.roleGrants.find? role).getD []
    rw [hgrants]
  | overrides user =>
    show s'.grantsOfUser user = s.grantsOfUser user
    rw [grantsOfUser, husers, grantsOfUser]
  | assignments user =>
    show s'.rolesOfUser user = s.rolesOfUser user
    rw [rolesOfUser, husers, rolesOfUser]
  | stamp user =>
    show s'.stampOf user = s.stampOf user
    rw [stampOf, husers, stampOf]

/-- A change of a user leaves alone what it keeps of the user, and everything else. -/
theorem sameIn_modifyUser {user : UserId} {change : StoredUser → StoredUser}
    (h : s.modifyUser user change = .ok s')
    (hgrants : aspect ≠ .overrides user ∨ ∀ stored, (change stored).grants = stored.grants)
    (hroles : aspect ≠ .assignments user ∨ ∀ stored, (change stored).roles = stored.roles)
    (hstamp : aspect ≠ .stamp user ∨ ∀ stored, (change stored).stamp = stored.stamp) :
    s.SameIn s' aspect := by
  cases aspect with
  | role role =>
    obtain ⟨-, rfl⟩ := modifyUser_ok h
    rfl
  | roleGrants role =>
    obtain ⟨-, rfl⟩ := modifyUser_ok h
    rfl
  | overrides other =>
    have hrows : CacheKey.userPermissions other ≠ .userPermissions user ∨
        ∀ stored, (change stored).grants = stored.grants :=
      hgrants.imp_left fun hne heq => hne (CacheKey.userPermissions.inj heq ▸ rfl)
    have hsame : s.SameData s' (.userPermissions other) :=
      sameData_modifyUser h _ (.inl nofun) hrows
    exact hsame
  | assignments other =>
    have hassigned : CacheKey.userRoles other ≠ .userRoles user ∨
        ∀ stored, (change stored).roles = stored.roles :=
      hroles.imp_left fun hne heq => hne (CacheKey.userRoles.inj heq ▸ rfl)
    have hsame : s.SameData s' (.userRoles other) :=
      sameData_modifyUser h _ hassigned (.inl nofun)
    exact hsame
  | stamp other =>
    show s'.stampOf other = s.stampOf other
    rcases hstamp with hne | hkeeps
    · have hother : other ≠ user := fun heq => hne (heq ▸ rfl)
      rw [stampOf, find?_modifyUser h, if_neg hother, stampOf]
    · exact stampOf_modifyUser h hkeeps

end Store

/-- **What a write does not touch it leaves as it is.** -/
theorem Backend.Request.Wrote.sameIn {r : Backend.Request} {s s' : Store} {aspect : Aspect}
    (hwrote : r.Wrote s s') (h : ¬r.Touches aspect) : s.SameIn s' aspect := by
  cases r with
  | createRole new => exact absurd trivial h
  | updateRole role change => exact absurd trivial h
  | deleteRole role => exact absurd trivial h
  | replaceRoleGrants role grants =>
    obtain ⟨-, rfl⟩ := Store.replaceRoleGrants_ok hwrote
    cases aspect with
    | roleGrants other =>
      have hother : other ≠ role := fun heq => h (heq ▸ rfl)
      show ((s.roleGrants.insert role grants).find? other).getD [] = _
      rw [Table.find?_insert, if_neg hother]
      rfl
    | _ => rfl
  | replaceUserGrants user grants =>
    exact Store.sameIn_modifyUser hwrote (.inl h) (.inr fun _ => rfl) (.inr fun _ => rfl)
  | replaceUserRoles user roles =>
    exact Store.sameIn_modifyUser (Store.replaceUserRoles_ok hwrote)
      (.inr fun _ => rfl) (.inl h) (.inr fun _ => rfl)
  | updateStamp user stamp =>
    exact Store.sameIn_modifyUser hwrote (.inr fun _ => rfl) (.inr fun _ => rfl) (.inl h)
  | createToken record =>
    obtain rfl := Store.createToken_ok hwrote
    exact Store.sameIn_of_tables rfl rfl rfl
  | deleteToken user key =>
    obtain rfl := hwrote
    exact Store.sameIn_of_tables rfl rfl rfl
  | deleteTokens user =>
    obtain rfl := hwrote
    exact Store.sameIn_of_tables rfl rfl rfl
  | _ => exact hwrote.elim

namespace World
variable {aspect : Aspect} {w w' : World} {r : Backend.Request}
  {mayFail : Backend.Request → Bool}

/-- What a request does not touch stays as it is, whether the request is done or fails. -/
theorem sameIn_of_answers {a : Backend.Answer r} (h : ¬r.Touches aspect)
    (ha : (unreliable mayFail).Answers r w a w') : w.store.SameIn w'.store aspect := by
  rcases store_of_answers_cases ha with hsame | hwrote
  · rw [hsame]
    exact .refl _ _
  · exact hwrote.sameIn h

/-- **What no request of some exchanges touches is the same after them.** -/
theorem sameIn_of_follows {t : List (Exchange Backend)} (h : (unreliable mayFail).Follows w t w')
    (ht : ∀ e ∈ t, ¬e.request.Touches aspect) : w.store.SameIn w'.store aspect :=
  h.invariant (P := fun v => w.store.SameIn v.store aspect)
    (fun e he _ _ ha hv => hv.trans (sameIn_of_answers (ht e he) ha)) (.refl _ _)

/-- A request that writes nothing touches nothing. -/
theorem not_touches_of_not_writes (h : r.writes = false) (aspect : Aspect) :
    ¬r.Touches aspect := by
  cases r <;> first | exact id | cases h

end World
end AccessControl
