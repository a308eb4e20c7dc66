import AccessControl.Proofs.Administration.History
import AccessControl.Proofs.World.Schedule

/-! # Stale items come from straddling resolutions only

Any number of calls may resolve, decide and administer at the same time.  A resolution straddles a
write if it has read something that the write changes, and caches it when whoever has written has
already removed the item (`Straddled`).  Then a stale item stays in the cache.

**There is no other way** (`exact_unless_straddled`).  If no write is straddled, all items are exact
whenever no call is in flight, whichever way the calls have ended and whatever the stores and the
cache have failed to do, as long as what is removed from the cache is gone.  If nobody writes,
nothing is straddled, and every call ends in what follows from the one store.
-/
namespace AccessControl

namespace Administration.Call
open World Authorization
variable {mayFail : Backend.Request → Bool} {P : Exchange Backend → Prop} {d : Deployment}
  {s : Store}

/-- What a call that only reads answers from a store. -/
def answer? (d : Deployment) (s : Store) : (c : Call) → Option (Except Failure c.Result)
  | .resolveRole role =>
    some ((s.roleSet d.catalog role).elim (.error (Role.missing role)) .ok)
  | .resolveUser user => some (.ok (s.permissions d.catalog user))
  | .isGranted user name => some (.ok ((s.permissions d.catalog user).contains name))
  | .hasPermission user name => some do
    d.catalog.ensureKnown [name]
    return (s.permissions d.catalog user).contains name
  | .requirePermission user name => some do
    d.catalog.ensureKnown [name]
    failIf (!(s.permissions d.catalog user).contains name) (lacks user name)
  | .listGranted user =>
    some (.ok (d.catalog.definitions.filter fun definition =>
      (s.permissions d.catalog user).contains definition.name.text))
  | _ => none

/-- **From right answers a call that only reads learns its answer.** -/
theorem learns (hP : ∀ e, P e → Tells mayFail d.catalog s e) {c : Call}
    {answer : Except Failure c.Result} (h : c.answer? d s = some answer) :
    Learns (ByStores mayFail) P (c.service d) answer := by
  have hreads : ∀ e, P e → Reads mayFail s e := fun e he => (hP e he).reads
  cases c with
  | resolveRole role =>
    obtain rfl := Option.some.inj h
    exact learns_resolveRole hreads
  | resolveUser user =>
    obtain rfl := Option.some.inj h
    exact learns_resolveUser hreads
  | isGranted user name =>
    obtain rfl := Option.some.inj h
    exact learns_isGranted hP name
  | hasPermission user name =>
    obtain rfl := Option.some.inj h
    exact learns_hasPermission hP name
  | requirePermission user name =>
    obtain rfl := Option.some.inj h
    exact learns_requirePermission hP name
  | listGranted user =>
    obtain rfl := Option.some.inj h
    exact learns_listGranted hreads
  | _ => cases h

/-- A call that only reads changes nothing but the cache. -/
theorem asks_harmless {c : Call} (h : c.answer? d s ≠ none) :
    (c.service d).run.Asks Harmless := by
  have hresolves : ∀ {α : Type} {p : Program Backend α}, Resolves d ⟨0⟩ p → p.Asks Harmless :=
    Resolves.asks_harmless
  cases c with
  | resolveRole role =>
    have hrole : Resolves d role (Authorization.resolveRole d role).run :=
      resolves_resolveRole role
    exact hrole.asks_harmless
  | resolveUser user => exact hresolves (resolves_resolveUser user)
  | isGranted user name => exact hresolves (resolves_isGranted user name)
  | hasPermission user name => exact hresolves (resolves_hasPermission user name)
  | requirePermission user name => exact hresolves (resolves_requirePermission user name)
  | listGranted user => exact hresolves (resolves_listGranted user)
  | _ => exact absurd rfl h

end Administration.Call

namespace Concurrency
open World Outside Program Administration
variable {ι : Type} [DecidableEq ι] {mayFail : Backend.Request → Bool} {d : Deployment}
  {calls : ι → Call} {t : List (ι × Exchange Backend)} {w w' : World}

/-- **A resolution has straddled a write of the data of an item.** -/
abbrev Straddled (key : CacheKey) (t : List (ι × Exchange Backend)) : Prop :=
  LateRefill (fun _ e => Unsettles key e) key t

/-- An item that is tended to is exact in the end if it was so in the beginning. -/
theorem exact_of_tended (hremove : RemovalsHold mayFail) (hw : w.Exact d.catalog)
    (hf : (unreliable mayFail).Follows w (whole t) w')
    (h : ∀ key, Tended d.catalog (fun _ e => Unsettles key e) key t) : w'.Exact d.catalog := by
  intro key value hheld
  rcases (h key).exact_or_kept (hremove key.text) hf hheld with hexact | ⟨hheld, hsame⟩
  · exact hexact
  · exact (hw key value hheld).of_sameData hsame

/-- **As long as nobody writes, everything stays exact**, whatever is in flight. -/
theorem exact_of_reading (hremove : RemovalsHold mayFail) (hw : w.Exact d.catalog)
    (hbegins : ∀ i, ((calls i).service d).run.Begins (share i t))
    (hharmless : ∀ e ∈ whole t, Harmless e.request)
    (hf : (unreliable mayFail).Follows w (whole t) w') :
    w'.store = w.store ∧ w'.Exact d.catalog := by
  refine ⟨(follows_reads hf fun e he => (hharmless e he).writes).1, ?_⟩
  refine exact_of_tended hremove hw hf fun key => ?_
  refine tended_of_settled (fun i => ((calls i).keepsOrder d).begins (hbegins i)) fun i e he => ?_
  exact not_unsettles_of_not_writes (hharmless e (mem_whole_of_mem_share he)).writes

/-- As long as nobody writes, every answer is right for the one store. -/
theorem tells_of_reading (hremove : RemovalsHold mayFail) (hw : w.Exact d.catalog)
    (hbegins : ∀ i, ((calls i).service d).run.Begins (share i t))
    (hharmless : ∀ e ∈ whole t, Harmless e.request)
    (hf : (unreliable mayFail).Follows w (whole t) w') :
    ∀ e ∈ whole t, Tells mayFail d.catalog w.store e := by
  intro e he
  obtain ⟨i, hi⟩ := mem_whole_iff.mp he
  obtain ⟨before, after, rfl⟩ := List.append_of_mem (mem_share.mp hi)
  obtain ⟨m, m', hbefore, hanswers, -⟩ := follows_whole_cut hf
  have hbegins' : ∀ j, ((calls j).service d).run.Begins (share j before) := by
    intro j
    have hj := hbegins j
    rw [share_append] at hj
    exact hj.of_append
  have hharmless' : ∀ e ∈ whole before, Harmless e.request := by
    intro e he
    rw [whole_append] at hharmless
    exact hharmless e (List.mem_append_left _ he)
  obtain ⟨hstore, hexact⟩ := exact_of_reading hremove hw hbegins' hharmless' hbefore
  rw [← hstore]
  exact tells_of_answers hexact.coherent hanswers

/-- **Stale items come from straddling resolutions only.** -/
theorem exact_unless_straddled (hremove : RemovalsHold mayFail) (hw : w.Exact d.catalog)
    (hf : (unreliable mayFail).Follows w (whole t) w') :
    ((∀ i, share i t = [] ∨ ∃ r, ((calls i).service d).run.Transcript (share i t) r) →
      (∀ key, ¬Straddled key t) → w'.Exact d.catalog) ∧
    ((∀ i, ((calls i).service d).run.Begins (share i t)) →
      (∀ i, (calls i).answer? d w.store ≠ none) →
        w'.store = w.store ∧ w'.Exact d.catalog ∧
        ∀ i answer r, (calls i).answer? d w.store = some answer →
          ((calls i).service d).run.Transcript (share i t) r →
            Concludes (ByStores mayFail) answer r) := by
  constructor
  · intro hended hprompt
    refine exact_of_tended hremove hw hf fun key => tended_of_orderly (fun i => ?_) (hprompt key)
    rcases hended i with hidle | ⟨r, hr⟩
    · rw [hidle]
      exact .nil d.catalog
    · exact ((calls i).keepsOrder d).orderly hr
  · intro hbegins hreads
    have hharmless : ∀ e ∈ whole t, Harmless e.request := by
      intro e he
      obtain ⟨i, hi⟩ := mem_whole_iff.mp he
      exact (Call.asks_harmless (hreads i)).begins (hbegins i) e hi
    obtain ⟨hstore, hexact⟩ := exact_of_reading hremove hw hbegins hharmless hf
    refine ⟨hstore, hexact, fun i answer r hanswer hr => ?_⟩
    have hlearns : Learns (ByStores mayFail) (Tells mayFail d.catalog w.store)
        ((calls i).service d) answer := Call.learns (fun _ h => h) hanswer
    refine Ensures.of_giving hlearns hr fun e he => ?_
    exact tells_of_reading hremove hw hbegins hharmless hf e (mem_whole_of_mem_share he)

/-! ## One user who is resolved while a role is given up -/

section OneEditor
open History (oneEditor)

/-- The user gives the role up, and is resolved. -/
def giveUpAndResolve : Caller → Call
  | .first => .setUserRoles ⟨1⟩ ⟨1⟩ []
  | .second => .resolveUser ⟨1⟩

/-- The user gives the role up while being resolved: the resolution has read the roles before the
write, and caches them between the write and the removal. -/
def giveUpMeanwhile : List (Caller × Exchange Backend) × Program Backend (Except Failure Unit) ×
    Program Backend (Except Failure NameSet) × World :=
  weave (List.replicate 8 .first ++ [.second, .first] ++ List.replicate 6 .second ++ [.first])
    (setUserRoles History.deployment ⟨1⟩ ⟨1⟩ []).run
    (Authorization.resolveUser History.deployment ⟨1⟩).run oneEditor

/-- The user is resolved by two callers in turn. -/
def resolveTwice : List (Caller × Exchange Backend) × Program Backend (Except Failure NameSet) ×
    Program Backend (Except Failure NameSet) × World :=
  weave (List.replicate 7 [.first, .second]).flatten
    (Authorization.resolveUser History.deployment ⟨1⟩).run
    (Authorization.resolveUser History.deployment ⟨1⟩).run oneEditor

theorem not_straddled_meanwhile (key : CacheKey) : ¬Straddled key giveUpMeanwhile.1 := by
  -- Nothing is written but the roles of the user, and the last request removes them.
  have hwritten : (giveUpMeanwhile.1.filter (·.2.request.writes)) =
      [(.first, ⟨.replaceUserRoles ⟨1⟩ [], .ok ()⟩)] := rfl
  have hchange : ∀ caller, ∀ e ∈ share caller giveUpMeanwhile.1, Unsettles key e →
      caller = .first ∧ key = .userRoles ⟨1⟩ := by
    intro caller e he hkey
    have hmem : (caller, e) ∈ giveUpMeanwhile.1.filter (·.2.request.writes) :=
      List.mem_filter.mpr ⟨mem_share.mp he, hkey.writes⟩
    rw [hwritten] at hmem
    obtain ⟨rfl, rfl⟩ := Prod.mk.inj (List.mem_singleton.mp hmem)
    exact ⟨rfl, hkey⟩
  have hlast : giveUpMeanwhile.1.getLast? =
      some (.first, ⟨.cacheDelete (CacheKey.userRoles ⟨1⟩).text, .ok ()⟩) := rfl
  by_cases hkey : key = .userRoles ⟨1⟩
  · subst hkey
    obtain ⟨before, hcut⟩ := List.getLast?_eq_some_iff.mp hlast
    exact not_lateRefill_of_removal hcut (fun caller e he h => (hchange caller e he h).1)
      fun e he => absurd he List.not_mem_nil
  · exact not_lateRefill_of_forall fun caller e he h => hkey (hchange caller e he h).2

/-- **A resolution that is overtaken, but not by the removal, leaves nothing stale**; and two that
overtake each other give the same. -/
theorem exact_unless_straddled_meanwhile :
    giveUpMeanwhile.2.2.2.Exact History.deployment.catalog ∧
      resolveTwice.2.2.2.Exact History.deployment.catalog ∧
      ∀ caller r,
        (Authorization.resolveUser History.deployment ⟨1⟩).run.Transcript
          (share caller resolveTwice.1) r →
        Concludes (ByStores fun _ => false) (.ok (.ofList [Permission.editUsers])) r := by
  have hstart : oneEditor.Exact History.deployment.catalog := exact_of_empty rfl
  have hwriter : giveUpMeanwhile.2.1 = .done (.ok ()) := rfl
  have hreader : giveUpMeanwhile.2.2.1 = .done (.ok (.ofList [Permission.editUsers])) := rfl
  have hfirst : resolveTwice.2.1 = .done (.ok (.ofList [Permission.editUsers])) := rfl
  have hsecond : resolveTwice.2.2.1 = .done (.ok (.ofList [Permission.editUsers])) := rfl
  constructor
  · have hended : ∀ caller, share caller giveUpMeanwhile.1 = [] ∨
        ∃ r, ((giveUpAndResolve caller).service History.deployment).run.Transcript
          (share caller giveUpMeanwhile.1) r := by
      intro caller
      cases caller with
      | first => exact .inr ⟨_, transcript_first_of_done hwriter⟩
      | second => exact .inr ⟨_, transcript_second_of_done hreader⟩
    have hfollows : (unreliable fun _ => false).Follows oneEditor (whole giveUpMeanwhile.1)
        giveUpMeanwhile.2.2.2 := follows_weave _ _ _ _
    exact (exact_unless_straddled (fun _ => rfl) hstart hfollows).1 hended not_straddled_meanwhile
  · have hbegins : ∀ caller, ((Call.resolveUser ⟨1⟩).service History.deployment).run.Begins
        (share caller resolveTwice.1) := by
      intro caller
      cases caller with
      | first => exact (transcript_first_of_done hfirst).begins
      | second => exact (transcript_second_of_done hsecond).begins
    have hfollows : (unreliable fun _ => false).Follows oneEditor (whole resolveTwice.1)
        resolveTwice.2.2.2 := follows_weave _ _ _ _
    obtain ⟨-, hexact, hresults⟩ :=
      (exact_unless_straddled (fun _ => rfl) hstart hfollows).2 hbegins fun _ => nofun
    exact ⟨hexact, fun caller r hr => hresults caller _ r rfl hr⟩

end OneEditor
end Concurrency
end AccessControl
