import AccessControl.Proofs.Authorization.Exchanges
import AccessControl.Proofs.Authorization.Order
import AccessControl.Proofs.Authorization.Told
import AccessControl.Proofs.World.Exact

/-! # Resolutions and decisions in a coherent world

A resolution caches what it has read, so as long as nobody else writes it only adds valid values to
the cache.  In a coherent world the cache only ever answers valid values, so a decision from the
cache is the decision that a resolution leads to.

Stores may fail as well.  Then a service fails, and what it has cached by then is valid.
-/
namespace AccessControl

/-- A request does not read any of some items from the cache. -/
def Backend.Request.Avoids (excepted : CacheKey → Prop) (r : Backend.Request) : Prop :=
  ∀ key : CacheKey, excepted key → r ≠ .cacheGet key.text

namespace World
variable {α : Type} {mayFail : Backend.Request → Bool} {catalog : Catalog} {w w' : World}
  {x : Service α} {answer : Except Failure α}

/-- In a world where every item but some is valid, every answer that is not about these is right
for the store. -/
theorem CoherentBut.tells_of_answers {excepted : CacheKey → Prop}
    (hw : w.CoherentBut catalog excepted) {e : Exchange Backend}
    (he : e.request.Avoids excepted) (h : (unreliable mayFail).Answers e.request w e.answer w') :
    Tells mayFail catalog w.store e where
  reads := reads_of_answers h
  shows key value hshown := by
    subst hshown
    rcases held_of_cacheGet h with hheld | hspoilt
    · exact hw key value (fun hkey => he key hkey rfl) hheld
    · exact hspoilt.valid w.store catalog

/-- In a coherent world every answer is right for the store. -/
theorem tells_of_answers (hw : w.Coherent catalog) {e : Exchange Backend}
    (h : (unreliable mayFail).Answers e.request w e.answer w') :
    Tells mayFail catalog w.store e := CoherentBut.tells_of_answers hw (fun _ h => h.elim) h

section Learns
variable (hx : KeepsOrder catalog x) (hasks : x.run.Asks Harmless)
include hx hasks

theorem ensures_refills : (unreliable mayFail).Ensures x.run w fun _ w' => w.Refills catalog w' :=
  fun _ _ _ ht hf => refills_of_follows hf (hasks _ _ ht) (hx.orderly ht)

/-- **What a service learns from a store, it comes to in a world with that store.** -/
theorem ensures_of_learns (h : Learns (ByStores mayFail) (Reads mayFail w.store) x answer) :
    (unreliable mayFail).Ensures x.run w fun r w' =>
      Concludes (ByStores mayFail) answer r ∧ w.Refills catalog w' := by
  intro t r w' ht hf
  have hwrites : ∀ e ∈ t, e.request.writes = false := fun e he => (hasks _ _ ht e he).writes
  exact ⟨Outside.Ensures.of_giving h ht (follows_reads hf hwrites).2,
    ensures_refills hx hasks _ _ _ ht hf⟩

/-- **In a world where every item but some is valid, a service that does not read these comes to
what it learns from the store and the cache.** -/
theorem CoherentBut.ensures_of_learns {excepted : CacheKey → Prop}
    (hw : w.CoherentBut catalog excepted) (hgets : x.run.Asks (Backend.Request.Avoids excepted))
    (h : Learns (ByStores mayFail) (Tells mayFail catalog w.store) x answer) :
    (unreliable mayFail).Ensures x.run w fun r w' =>
      Concludes (ByStores mayFail) answer r ∧ w.Refills catalog w' := by
  intro t r w' ht hf
  refine ⟨Outside.Ensures.of_giving h ht fun e he => ?_, ensures_refills hx hasks _ _ _ ht hf⟩
  have hget := hgets _ _ ht e he
  -- Whatever was exchanged before an answer has left the items as they were.
  obtain ⟨before, after, m, m', rfl, hbefore, hanswers, -⟩ := hf.cut he
  have hrefills : w.Refills catalog m :=
    refills_of_follows hbefore (fun e he => hasks _ _ ht e (List.mem_append_left _ he))
      (hx.orderly ht).of_append
  rw [← hrefills.store]
  exact (hw.refills hrefills).tells_of_answers hget hanswers

/-- **In a coherent world it comes to what it learns from the store and the cache.** -/
theorem Coherent.ensures_of_learns (hw : w.Coherent catalog)
    (h : Learns (ByStores mayFail) (Tells mayFail catalog w.store) x answer) :
    (unreliable mayFail).Ensures x.run w fun r w' =>
      Concludes (ByStores mayFail) answer r ∧ w.Refills catalog w' :=
  CoherentBut.ensures_of_learns hx hasks hw (fun _ _ _ _ _ _ h => h.elim) h

end Learns

end World

namespace Authorization
open World Outside
variable {d : Deployment} {w : World} {user : UserId} {mayFail : Backend.Request → Bool}

/-! ## Resolving -/

/-- **A resolution gives what follows from the store, and what it caches is valid.** -/
theorem ensures_resolveUser :
    lossy.Ensures (resolveUser d user).run w (fun r w' =>
      r = .ok (w.store.permissions d.catalog user) ∧ w.Refills d.catalog w') := by
  have hresolves : Resolves d ⟨0⟩ (resolveUser d user).run := resolves_resolveUser user
  refine (ensures_of_learns keepsOrder_resolveUser hresolves.asks_harmless
    (learns_resolveUser fun _ h => h)).mono fun _ _ hr => ⟨hr.1.eq_of_lossy, hr.2⟩

/-! ## Deciding -/

/-- **Where what is cached of a user and of roles is valid, a decision is the one that a resolution
leads to**, whether it is made from the cache or not. -/
theorem ensures_isGranted_but {excepted : CacheKey → Prop} (hw : w.CoherentBut d.catalog excepted)
    (hroles : ¬excepted (.userRoles user)) (hrows : ¬excepted (.userPermissions user))
    (hrole : ∀ role, ¬excepted (.rolePermissions role)) (name : String) :
    lossy.Ensures (isGranted d user name).run w (fun r w' =>
      r = .ok ((w.store.permissions d.catalog user).contains name) ∧ w.Refills d.catalog w') := by
  have hresolves : Resolves d ⟨0⟩ (isGranted d user name).run := resolves_isGranted user name
  have hitem : ∀ key, ¬excepted key → AllowsItem (Backend.Request.Avoids excepted) key := by
    refine fun key hkey => ⟨fun other hother heq => hkey ?_, fun _ _ => nofun, fun _ _ _ _ => nofun⟩
    obtain rfl := CacheKey.text_injective (Backend.Request.cacheGet.inj heq)
    exact hother
  have hgets : AllowsDecisions (Backend.Request.Avoids excepted) user :=
    { roles := fun _ _ => nofun
      rows := fun _ _ => nofun
      rolesItem := hitem _ hroles
      rowsItem := hitem _ hrows
      role := fun role => ⟨fun _ _ => nofun, fun _ _ => nofun, hitem _ (hrole role)⟩ }
  refine (CoherentBut.ensures_of_learns (keepsOrder_isGranted name) hresolves.asks_harmless hw
    (asks_isGranted hgets name) (learns_isGranted (fun _ h => h) name)).mono fun _ _ hr => ?_
  exact ⟨hr.1.eq_of_lossy, hr.2⟩

/-- **In a coherent world a decision is the one that a resolution leads to**, whether it is
made from the cache or not. -/
theorem ensures_isGranted (hw : w.Coherent d.catalog) (name : String) :
    lossy.Ensures (isGranted d user name).run w (fun r w' =>
      r = .ok ((w.store.permissions d.catalog user).contains name) ∧ w.Refills d.catalog w') :=
  ensures_isGranted_but hw id id (fun _ => id) name

/-- **Whoever passes in a coherent world has the permission**, and nothing is written. -/
theorem ensures_requirePermission (hw : w.Coherent d.catalog) (name : String) :
    (unreliable mayFail).Ensures (requirePermission d user name).run w (fun r w' =>
      (r = .ok () → name ∈ w.store.permissions d.catalog user) ∧ w.Refills d.catalog w') := by
  have hresolves : Resolves d ⟨0⟩ (requirePermission d user name).run :=
    resolves_requirePermission user name
  refine (hw.ensures_of_learns (keepsOrder_requirePermission user name) hresolves.asks_harmless
    (learns_requirePermission (fun _ h => h) name)).mono fun r _ hr => ⟨?_, hr.2⟩
  rintro rfl
  rcases hr.1 with hpassed | ⟨failure, hfailed, -⟩
  · cases hknown : d.catalog.ensureKnown [name] with
    | error failure =>
      rw [hknown] at hpassed
      cases hpassed
    | ok _ =>
      rw [hknown] at hpassed
      have hheld := failIf_eq_ok_iff.mp hpassed.symm
      rw [Bool.not_eq_true', Bool.not_eq_false] at hheld
      exact SortedSet.contains_iff.mp hheld
  · cases hfailed

end Authorization
end AccessControl
