import AccessControl.Proofs.Administration.Renaming
import AccessControl.Proofs.Services.Gate

/-! # Whoever may do something

In a world that the services lead to (`Services.Reachable`), a user to whom a resolution gives a
permission passes the check for it, even if the check is answered from the cache.  Where only the
cache may fail, a store answers every request, so from there on the outcome of an operation depends
on what is stored and on its arguments alone (`World.ensures_stored`): it either meets its
conditions and succeeds with one write, or fails and has written nothing (`Decided`).
-/
namespace AccessControl

/-- Names are known to a catalog if they are all of the catalog. -/
theorem Catalog.ensureKnown_ofList_iff {catalog : Catalog} {names : List String} {u : Unit} :
    catalog.ensureKnown (SortedSet.ofList names).toList = .ok u ↔
      ∀ name ∈ names, name ∈ catalog.nameList := by
  constructor
  · intro h name hname
    have hmem : name ∈ (SortedSet.ofList names : NameSet) := SortedSet.mem_ofList.mpr hname
    exact Catalog.contains_iff.mp (Catalog.contains_of_ensureKnown h hmem)
  · intro h
    refine Catalog.ensureKnown_of_contains fun name hname => ?_
    have hmem : name ∈ (SortedSet.ofList names : NameSet) := hname
    exact Catalog.contains_iff.mpr (h name (SortedSet.mem_ofList.mp hmem))

namespace Store

/-- A role that is the same with the same rows gives the same permissions. -/
theorem roleGives_of_sameData {s s' : Store} {role : RoleId} {name : String}
    (h : s.SameData s' (.rolePermissions role)) :
    s'.RoleGives role name ↔ s.RoleGives role name := by
  rw [RoleGives, RoleGives, h.1, h.2]

end Store

namespace Services
variable {d : Deployment} {w : World}

/-- **The services have led to a world**, from a store whose parts fit together and an empty cache,
whatever failed on the way. -/
def Reachable (d : Deployment) (w : World) : Prop :=
  ∃ start : World, start.store.Sound ∧ start.cache.entries = ∅ ∧
    Reached d Session.mayFail start w

namespace Reachable

/-- Every cached item is right for the store. -/
theorem coherent (h : Reachable d w) : w.Coherent d.catalog := by
  obtain ⟨start, hsound, hempty, hreached⟩ := h
  exact hreached.coherent (fun _ => rfl) hempty hsound

/-- The parts of the store fit together. -/
theorem sound (h : Reachable d w) : w.store.Sound := by
  obtain ⟨start, hsound, -, hreached⟩ := h
  exact hreached.proceeds.sound hsound

end Reachable
end Services

namespace World
open Outside
variable {w : World}

/-- **Where only the cache may fail, a store answers every request.** -/
theorem ensures_stored {r : Backend.Request} (hcache : r.isCaching = false)
    {Q : Backend.Answer r → World → Prop}
    (h : ∀ v, Drifts w v → Q (World.answer r v).1 (World.answer r v).2) :
    lossy.Ensures (Program.request (I := Backend) r) w Q := by
  refine ensures_served hcache h fun v failure a _ hfail _ => ?_
  exact absurd ⟨r, hcache, hfail⟩ not_storesFail_lossy

section Writing
variable {α : Type} {x : Service α} {y : Service Unit}

/-- **A write succeeds if the store takes it**, and otherwise nothing is written. -/
theorem ensures_writeGiving {f : Store → Except Failure (α × Store)}
    (hx : ∀ Q : Except Failure α → World → Prop,
      (∀ v, Drifts w v → Q (writeGiving f v).1 (writeGiving f v).2) → lossy.Ensures x.run w Q)
    {Q : Except Failure α → World → Prop} (hok : ∀ v a, f w.store = .ok (a, v.store) → Q (.ok a) v)
    (herror : ∀ v failure, f w.store = .error failure → v.store = w.store →
      Q (.error failure) v) :
    lossy.Ensures x.run w Q :=
  hx Q fun v hv =>
    writeGiving_cases (fun a store h => hok { v with store } a (hv.store ▸ h))
      fun failure h => herror v failure (hv.store ▸ h) hv.store

/-- A write without a result, likewise. -/
theorem ensures_write {f : Store → Except Failure Store}
    (hy : ∀ Q : Except Failure Unit → World → Prop,
      (∀ v, Drifts w v → Q (World.write f v).1 (World.write f v).2) → lossy.Ensures y.run w Q)
    {Q : Except Failure Unit → World → Prop} (hok : ∀ v, f w.store = .ok v.store → Q (.ok ()) v)
    (herror : ∀ v failure, f w.store = .error failure → v.store = w.store →
      Q (.error failure) v) :
    lossy.Ensures y.run w Q :=
  hy Q fun v hv =>
    write_cases (fun store h => hok { v with store } (hv.store ▸ h))
      fun failure h => herror v failure (hv.store ▸ h) hv.store

end Writing
end World

namespace Administration
open World Outside Authorization Services
variable {α : Type} {d : Deployment} {actor : UserId} {name : String} {w : World}

/-- **A world in which a user may do something**: the services have led to it, and a resolution of
the user ends in a set with the permission. -/
structure Authorized (d : Deployment) (actor : UserId) (name : String) (w : World) : Prop where
  reachable : Reachable d w
  holds : lossy.Yields (resolveUser d actor).run w fun r _ => ∃ held, r = .ok held ∧ name ∈ held

/-- The permission follows from the store. -/
theorem Authorized.mem (h : Authorized d actor name w) :
    name ∈ w.store.permissions d.catalog actor :=
  of_yields_resolveUser h.holds

/-- A resolution gives what follows from the store. -/
theorem authorized_of_mem (hw : Reachable d w) (h : name ∈ w.store.permissions d.catalog actor) :
    Authorized d actor name w :=
  ⟨hw, yields_of_ensures (ensures_resolveUser.mono fun _ _ hr => ⟨_, hr.1, h⟩)⟩

/-- **Whoever has a permission passes the check for it**, whether it is answered from the cache or
not, and nothing is written. -/
theorem ensures_requirePermission_holds (hw : w.Coherent d.catalog)
    (h : name ∈ w.store.permissions d.catalog actor) :
    lossy.Ensures (requirePermission d actor name).run w fun r w' =>
      r = .ok () ∧ w.Refills d.catalog w' := by
  have hresolves : Resolves d ⟨0⟩ (requirePermission d actor name).run :=
    resolves_requirePermission actor name
  have hlearns : Learns (ByStores Backend.Request.mayBeLost)
      (Tells Backend.Request.mayBeLost d.catalog w.store) (requirePermission d actor name) _ :=
    learns_requirePermission (fun _ h => h) name
  have hknown : d.catalog.contains name = true :=
    Catalog.contains_iff.mpr (Store.mem_permissions_iff.mp h).1
  have hcheck : d.catalog.ensureKnown [name] = .ok () :=
    Catalog.ensureKnown_of_contains (by simpa using hknown)
  rw [hcheck, SortedSet.contains_iff.mpr h] at hlearns
  refine (hw.ensures_of_learns (keepsOrder_requirePermission actor name) hresolves.asks_harmless
    hlearns).mono fun _ _ hr => ?_
  exact ⟨hr.1.eq_of_lossy, hr.2⟩

/-- **Exactly those who have a permission pass the check for it.** -/
theorem ensures_requirePermission_iff (hw : w.Coherent d.catalog) :
    lossy.Ensures (requirePermission d actor name).run w fun r w' =>
      (r = .ok () ↔ name ∈ w.store.permissions d.catalog actor) ∧ w.Refills d.catalog w' := by
  by_cases h : name ∈ w.store.permissions d.catalog actor
  · exact (ensures_requirePermission_holds hw h).mono fun _ _ hr =>
      ⟨iff_of_true hr.1 h, hr.2⟩
  · exact (ensures_requirePermission hw name).mono fun _ _ hr =>
      ⟨iff_of_false (fun hok => h (hr.1 hok)) h, hr.2⟩

/-- A role with the same set in two worlds resolves alike in both. -/
theorem resolveRole_alike {w' : World} {role : RoleId}
    (h : w'.store.roleSet d.catalog role = w.store.roleSet d.catalog role) :
    ∃ answer : Except Failure NameSet,
      lossy.Yields (resolveRole d role).run w (fun r _ => r = answer) ∧
      lossy.Yields (resolveRole d role).run w' (fun r _ => r = answer) := by
  refine ⟨_, yields_of_ensures ensures_resolveRole_eq,
    yields_of_ensures (ensures_resolveRole_eq.mono fun r _ hr => ?_)⟩
  rw [hr, h]

/-! ## Operations that are decided -/

/-- **An operation meets its conditions and succeeds by writing, or it does not, and fails without
having written.** -/
def Decided (conditions : Prop) (written : α → Store → Prop) (s : Store) (r : Except Failure α)
    (w' : World) : Prop :=
  (conditions ∧ ∃ a, r = .ok a ∧ written a w'.store) ∨
    (¬conditions ∧ (∃ failure, r = .error failure) ∧ w'.store = s)

namespace Decided
variable {conditions conditions' : Prop} {written : α → Store → Prop} {s : Store}
  {r : Except Failure α}

theorem of_iff (h : Decided conditions written s r w) (hiff : conditions' ↔ conditions) :
    Decided conditions' written s r w := by
  rw [Decided, hiff]
  exact h

theorem ok_iff (h : Decided conditions written s r w) : (∃ a, r = .ok a) ↔ conditions := by
  rcases h with ⟨hmet, a, rfl, -⟩ | ⟨hunmet, ⟨failure, rfl⟩, -⟩
  · exact iff_of_true ⟨a, rfl⟩ hmet
  · exact iff_of_false (fun ⟨_, hok⟩ => nomatch hok) hunmet

theorem written_of_ok {a : α} (h : Decided conditions written s (.ok a) w) :
    written a w.store := by
  rcases h with ⟨-, a', ha, hwritten⟩ | ⟨-, ⟨failure, hfailed⟩, -⟩
  · obtain rfl := Except.ok.inj ha
    exact hwritten
  · cases hfailed

theorem failsClean (h : Decided conditions written s r w) : FailsClean s r w := by
  rintro failure rfl
  rcases h with ⟨-, a, hok, -⟩ | ⟨-, -, hstore⟩
  · cases hok
  · exact hstore

/-- An operation without a result succeeds if its conditions are met. -/
theorem ok_unit_iff {written : Unit → Store → Prop} {r : Except Failure Unit}
    (h : Decided conditions written s r w) : r = .ok () ↔ conditions := by
  rw [← h.ok_iff]
  constructor
  · rintro rfl
    exact ⟨(), rfl⟩
  · rintro ⟨u, rfl⟩
    rfl

end Decided

/-- **After the check an operation is decided by what comes then**, in the same store. -/
theorem ensures_gated {conditions : Prop} {written : α → Store → Prop} {rest : Unit → Service α}
    (hw : w.Coherent d.catalog)
    (hrest : ∀ v, v.store = w.store →
      lossy.Ensures (rest ()).run v (Decided conditions written w.store)) :
    lossy.Ensures (requirePermission d actor name >>= rest).run w
      (Decided (name ∈ w.store.permissions d.catalog actor ∧ conditions) written w.store) := by
  rw [ensures_run_bind]
  refine (ensures_requirePermission_iff hw).mono fun r v hr => ?_
  obtain ⟨hpassed, hrefills⟩ := hr
  cases r with
  | ok u =>
    refine (hrest v hrefills.store).mono fun r v hdecided => ?_
    exact hdecided.of_iff (and_iff_right (hpassed.mp rfl))
  | error failure =>
    refine .inr ⟨fun h => ?_, ⟨failure, rfl⟩, hrefills.store⟩
    cases hpassed.mpr h.1

/-- **A check is one more condition**, in front of what comes then. -/
theorem ensures_checked {check : Except Failure Unit} {checked conditions : Prop}
    {written : α → Store → Prop} {s : Store} {rest : Unit → Service α} (hw : w.store = s)
    (hcheck : check = .ok () ↔ checked)
    (hrest : checked → lossy.Ensures (rest ()).run w (Decided conditions written s)) :
    lossy.Ensures (liftM check >>= rest).run w (Decided (checked ∧ conditions) written s) := by
  rw [ensures_run_bind, ensures_run_check]
  cases check with
  | ok u =>
    have hchecked := hcheck.mp rfl
    exact (hrest hchecked).mono fun r v hdecided => hdecided.of_iff (and_iff_right hchecked)
  | error failure =>
    refine .inr ⟨fun h => ?_, ⟨failure, rfl⟩, hw⟩
    cases hcheck.mpr h.1

end Administration
end AccessControl
