import AccessControl.Authorization.Decision
import AccessControl.Proofs.Program.Learning
import AccessControl.Proofs.World.Coherence
import AccessControl.Proofs.World.Reading

/-! # Resolutions and decisions from right answers

As long as all answers are right for one store, a service comes to what follows from that store.  A
resolution needs right answers of the stores alone (`Reads`), a decision of the cache too (`Tells`).
-/
namespace AccessControl
open World Outside
variable {α : Type} {mayFail : Backend.Request → Bool} {catalog : Catalog} {s : Store}
  {P : Exchange Backend → Prop}

/-- **An answer is right for a store**: what is read is as the store has it, and what the cache
answers is valid. -/
structure Tells (mayFail : Backend.Request → Bool) (catalog : Catalog) (s : Store)
    (e : Exchange Backend) : Prop where
  reads : Reads mayFail s e
  shows : ∀ (key : CacheKey) (value : String),
    e = ⟨.cacheGet key.text, .ok (some value)⟩ → Cached.Valid s catalog key value

/-- The failures of stores that may fail, whichever they are. -/
abbrev ByStores (mayFail : Backend.Request → Bool) : Failure → Prop := fun _ => StoresFail mayFail

/-- As long as only the cache fails, a service comes to its conclusion. -/
theorem Concludes.eq_of_lossy {answer r : Except Failure α}
    (h : Concludes (ByStores Backend.Request.mayBeLost) answer r) : r = answer :=
  h.eq fun _ => not_storesFail_lossy

theorem World.Gives.concludes {a : α} {r : Except Failure α} (h : Gives mayFail a r) :
    Concludes (ByStores mayFail) (.ok a) r :=
  h.imp_right fun ⟨hfails, failure, hfailed⟩ => ⟨failure, hfailed, hfails⟩

namespace Authorization
variable {d : Deployment} {role : RoleId} {user : UserId}

/-! ## Resolutions -/

section Resolving
variable (hP : ∀ e, P e → Reads mayFail s e)
include hP

theorem learns_loadRole :
    Learns (ByStores mayFail) P (loadRole d role) (.ok (s.roleSet d.catalog role)) := by
  have hfind : Learns (ByStores mayFail) P (Backend.findRole role) (.ok (s.findRole role)) :=
    ensures_giving (I := Backend) (r := .findRole role) fun _ h => Gives.concludes (hP _ h)
  have hrows : Learns (ByStores mayFail) P (Backend.roleGrants role)
      (.ok (s.grantsOfRole role)) :=
    ensures_giving (I := Backend) (r := .roleGrants role) fun _ h => Gives.concludes (hP _ h)
  rw [loadRole]
  apply hfind.bind
  rw [Store.roleSet]
  cases s.findRole role with
  | none => exact (learns_lift _).bind (learns_pure _)
  | some record =>
    apply hrows.bind
    exact (learns_lift _).bind (learns_pure _)

theorem learns_loadRoles (roles : List RoleId) :
    Learns (ByStores mayFail) P (loadRoles d roles) (.ok (s.roleSets d.catalog roles)) := by
  induction roles with
  | nil => exact learns_pure _
  | cons role roles ih =>
    have hsets : s.roleSets d.catalog (role :: roles) =
        (s.roleSet d.catalog role).toList ++ s.roleSets d.catalog roles := by
      rw [Store.roleSets, List.filterMap_cons]
      cases s.roleSet d.catalog role <;> rfl
    rw [loadRoles, hsets]
    apply (learns_loadRole hP).bind
    apply ih.bind
    exact learns_pure _

/-- What follows from a store for the resolution of a role. -/
theorem learns_resolveRole :
    Learns (ByStores mayFail) P (resolveRole d role)
      ((s.roleSet d.catalog role).elim (.error (Role.missing role)) .ok) := by
  rw [resolveRole]
  apply (learns_loadRole hP).bind
  cases s.roleSet d.catalog role with
  | none => exact learns_throw _
  | some held => exact learns_pure held

theorem learns_resolveUser :
    Learns (ByStores mayFail) P (resolveUser d user) (.ok (s.permissions d.catalog user)) := by
  have hroles : Learns (ByStores mayFail) P (Backend.userRoles user) (.ok (s.rolesOfUser user)) :=
    ensures_giving (I := Backend) (r := .userRoles user) fun _ h => Gives.concludes (hP _ h)
  have hrows : Learns (ByStores mayFail) P (Backend.userGrants user) (.ok (s.grantsOfUser user)) :=
    ensures_giving (I := Backend) (r := .userGrants user) fun _ h => Gives.concludes (hP _ h)
  rw [resolveUser]
  apply hroles.bind
  apply (learns_lift _).bind
  apply hrows.bind
  apply (learns_lift _).bind
  apply (learns_loadRoles hP _).bind
  exact learns_pure _

theorem learns_listGranted :
    Learns (ByStores mayFail) P (listGranted d user)
      (.ok (d.catalog.definitions.filter fun definition =>
        (s.permissions d.catalog user).contains definition.name.text)) :=
  (learns_resolveUser hP).bind (learns_pure _)

end Resolving

/-! ## Decisions -/

section Deciding
variable (hP : ∀ e, P e → Tells mayFail d.catalog s e)
include hP

theorem ensures_giving_cachedRoles (roles : List RoleId) :
    (giving P).Ensures (cachedRoles roles) () fun held? _ =>
      ∀ held, held? = some held → held = s.roleSets d.catalog roles := by
  induction roles with
  | nil =>
    rw [cachedRoles, ensures_pure]
    intro held h
    rw [← Option.some.inj h]
    rfl
  | cons role roles ih =>
    rw [cachedRoles, ensures_bind]
    refine (ensures_giving_read (.rolePermissions role)
      (Q := fun item? => ∀ item, item? = some item →
        s.roleSet d.catalog role = some item.granted) nofun ?_).mono fun item? _ hitem? => ?_
    · intro value item hshown hitem item' hitem'
      obtain rfl := Option.some.inj hitem'
      exact (hP _ hshown).shows (.rolePermissions role) value rfl item hitem
    · cases item? with
      | none => exact ensures_pure.mpr nofun
      | some item =>
        dsimp only
        rw [ensures_bind]
        refine ih.mono fun rest? _ hrest? => ?_
        cases rest? with
        | none => exact ensures_pure.mpr nofun
        | some rest =>
          refine ensures_pure.mpr fun held h => ?_
          rw [← Option.some.inj h, hrest? rest rfl, Store.roleSets, Store.roleSets,
            List.filterMap_cons, hitem? item rfl]

/-- **A decision from the cache is the one that follows from the store.** -/
theorem ensures_giving_cachedDecision (name : String) :
    (giving P).Ensures (cachedDecision user name) () fun decision? _ =>
      ∀ decision, decision? = some decision → decision =
        (s.overrides user).decides name
          (s.roleSets d.catalog (s.rolesOfUser user)) := by
  rw [cachedDecision, ensures_bind]
  refine (ensures_giving_read (.userRoles user)
    (Q := fun item? => ∀ item, item? = some item → item.roleIds = s.rolesOfUser user)
    nofun ?_).mono fun roles? _ hroles? => ?_
  · intro value item hshown hitem item' hitem'
    obtain rfl := Option.some.inj hitem'
    exact (hP _ hshown).shows (.userRoles user) value rfl item hitem
  · cases roles? with
    | none => exact ensures_pure.mpr nofun
    | some roles =>
      dsimp only
      rw [ensures_bind]
      refine (ensures_giving_read (.userPermissions user)
        (Q := fun item? => ∀ item, item? = some item →
          item.granted = (s.overrides user).granted ∧
            item.prohibited = (s.overrides user).prohibited)
        nofun ?_).mono fun item? _ hitem? => ?_
      · intro value item hshown hitem item' hitem'
        obtain rfl := Option.some.inj hitem'
        exact (hP _ hshown).shows (.userPermissions user) value rfl item hitem
      · cases item? with
        | none => exact ensures_pure.mpr nofun
        | some item =>
          dsimp only
          rw [ensures_bind]
          refine (ensures_giving_cachedRoles hP roles.roleIds).mono fun held? _ hheld? => ?_
          cases held? with
          | none => exact ensures_pure.mpr nofun
          | some held =>
            refine ensures_pure.mpr fun decision h => ?_
            obtain ⟨hgranted, hprohibited⟩ := hitem? item rfl
            rw [← Option.some.inj h, hheld? held rfl, hroles? roles rfl, hgranted, hprohibited,
              Store.overrides, Overrides.ofSets_ofRows]

theorem learns_isGranted (name : String) :
    Learns (ByStores mayFail) P (isGranted d user name)
      (.ok ((s.permissions d.catalog user).contains name)) := by
  rw [isGranted]
  split
  · rename_i hknown
    rw [Learns, ensures_run_bind, ensures_run_lift]
    refine (ensures_giving_cachedDecision hP name).mono fun decision? _ hdecision => ?_
    cases decision? with
    | some decision =>
      refine ensures_run_pure.mpr (.inl ?_)
      rw [hdecision decision rfl, Store.decides_eq hknown]
    | none => exact (learns_resolveUser fun e he => (hP e he).reads).bind (learns_pure _)
  · -- A name that is not of the catalog is in no set of permissions.
    rename_i hunknown
    have hnot : name ∉ s.permissions d.catalog user := fun h =>
      hunknown (SortedSet.mem_filter.mp h).2
    rw [SortedSet.contains, decide_eq_false hnot]
    exact learns_pure false

/-- What follows from a store for the question whether a user has a permission. -/
theorem learns_hasPermission (name : String) :
    Learns (ByStores mayFail) P (hasPermission d user name)
      ((d.catalog.ensureKnown [name]).bind fun _ =>
        .ok ((s.permissions d.catalog user).contains name)) :=
  (learns_check _).bind_of fun _ _ => learns_isGranted hP name

theorem learns_requirePermission (name : String) :
    Learns (ByStores mayFail) P (requirePermission d user name) (do
      d.catalog.ensureKnown [name]
      failIf (!(s.permissions d.catalog user).contains name) (lacks user name)) := by
  have hlearns : Learns (ByStores mayFail) P (requirePermission d user name) _ :=
    (learns_hasPermission hP name).bind_of fun held _ =>
      learns_check (failIf (!held) (lacks user name))
  cases hknown : d.catalog.ensureKnown [name] with
  | error failure =>
    rw [hknown] at hlearns
    exact hlearns
  | ok _ =>
    rw [hknown] at hlearns
    exact hlearns

end Deciding
end Authorization
end AccessControl
