import AccessControl.Proofs.World.Answers
import AccessControl.Proofs.World.Faultless

/-! # An outside whose cache is not to be trusted

Of the cache nothing is known here (`World.untrusted`).  Before each request whatever is cached may
be replaced by anything, and what the cache is asked it may answer with anything: with values of
others, with values that stand for nothing, or with a failure.  The clock may be set to any instant
before each request.  The store and the signer do what they are asked.

So what a service is told of the store, of the signer and by the clock is still true of the world
(`World.Truthful`), and it is all that the service can rely on.
-/
namespace AccessControl.World
open Outside Program
variable {α : Type} {w w' : World} {P : Instant → Prop} {t : List (Exchange Backend)}
  {e : Exchange Backend} {r : Backend.Request}

/-- An answer of a world whose cache may answer anything. -/
inductive AnsweredAtWill (r : Backend.Request) (w : World) : Backend.Answer r → World → Prop where
  /-- The cache gives any answer. -/
  | cached (a : Backend.Answer r) (h : r.isCaching = true) : AnsweredAtWill r w a w
  /-- Everything else does what it is asked. -/
  | done (h : r.isCaching = false) : AnsweredAtWill r w (World.answer r w).1 (World.answer r w).2

/-- **The outside whose cache and whose clock may do anything**: before every answer they are
replaced. -/
def untrusted : Outside Backend World :=
  ⟨fun r w a w' => ∃ cache now, AnsweredAtWill r { w with cache, now } a w'⟩

/-! ## Runs -/

/-- **Whatever is run, it has a run there**, also one in which the clock shows certain instants
only. -/
theorem exists_follows_untrusted (now : Instant) (h : P now) (p : Program Backend α) (w : World) :
    ∃ t a w', p.Transcript t a ∧ (untrusted.within fun v => P v.now).Follows w t w' := by
  induction p generalizing w with
  | done a => exact ⟨[], a, w, .done a, .nil w⟩
  | call r next ih =>
    by_cases hr : r.isCaching = true
    · obtain ⟨t, a, w', ht, hf⟩ := ih (World.answer r w).1 { w with now }
      exact ⟨_, a, w', .call ht, .cons ⟨h, w.cache, now, .cached _ hr⟩ hf⟩
    · obtain ⟨t, a, w', ht, hf⟩ :=
        ih (World.answer r { w with now }).1 (World.answer r { w with now }).2
      have hnow : P (World.answer r { w with now }).2.now := now_answer.symm ▸ h
      exact ⟨_, a, w', .call ht, .cons ⟨hnow, w.cache, now, .done (Bool.eq_false_iff.mpr hr)⟩ hf⟩

/-- A request to the cache changes nothing else. -/
theorem cachesOnly_of_isCaching (h : r.isCaching = true) : CachesOnly r := by
  intro w
  cases r with
  | cacheGet _ | cacheSet _ _ _ | cacheDelete _ => exact ⟨_, rfl⟩
  | _ => cases h

/-- A run in which everything does what it is asked is a run there too. -/
theorem follows_untrusted_of_faultless (h : faultless.Follows w t w') :
    untrusted.Follows w t w' := by
  induction h with
  | nil => exact .nil _
  | @cons w m w' e t h _ ih =>
    obtain ⟨hanswer, rfl⟩ := h
    by_cases hr : e.request.isCaching = true
    · obtain ⟨cache, hcache⟩ := cachesOnly_of_isCaching hr w
      exact .cons ⟨cache, w.now, hcache ▸ .cached _ hr⟩ ih
    · exact .cons ⟨w.cache, w.now, hanswer ▸ .done (Bool.eq_false_iff.mpr hr)⟩ ih

theorem ensures_of_answeredAtWill {Q : Backend.Answer r → World → Prop}
    (h : ∀ cache now a w', AnsweredAtWill r { w with cache, now } a w' → Q a w') :
    untrusted.Ensures (Program.request (I := Backend) r) w Q := by
  rw [ensures_request]
  rintro a w' ⟨cache, now, ha⟩
  exact h cache now a w' ha

/-- A request that does not go to the cache is done. -/
theorem ensures_untrusted_done {Q : Backend.Answer r → World → Prop} (hr : r.isCaching = false)
    (h : ∀ cache now, Q (World.answer r { w with cache, now }).1
      (World.answer r { w with cache, now }).2) :
    untrusted.Ensures (Program.request (I := Backend) r) w Q := by
  refine ensures_of_answeredAtWill fun cache now a w' ha => ?_
  cases ha with
  | cached _ hcaching => exact absurd hcaching (by simp [hr])
  | done _ => exact h cache now

/-- A record is stored, or the store says why not. -/
theorem ensures_untrusted_createToken {record : Token.Record}
    {Q : Except Failure Unit → World → Prop}
    (hok : ∀ cache now store, w.store.createToken record = .ok store →
      Q (.ok ()) { w with cache, now, store })
    (herror : ∀ cache now failure, w.store.createToken record = .error failure →
      Q (.error failure) { w with cache, now }) :
    untrusted.Ensures (Backend.createToken record).run w Q :=
  ensures_untrusted_done (r := .createToken record) rfl fun cache now =>
    write_cases (hok cache now) (herror cache now)

/-- Caching an item leaves behind any cache. -/
theorem ensures_untrusted_store [Cached.Item α] {seconds : UInt32} {item : α}
    {Q : Unit → World → Prop} (h : ∀ cache now, Q () { w with cache, now }) :
    untrusted.Ensures (Cached.store seconds item) w Q := by
  rw [Cached.store, Cached.write, Backend.request_eq, ensures_bind]
  refine ensures_of_answeredAtWill fun cache now a w' ha => ?_
  cases ha with
  | cached _ _ => exact ensures_pure.mpr (h cache now)
  | done hcaching => cases hcaching

/-! ## What is told -/

/-- **An exchange tells the truth of a world**: unless the cache was asked, the answer is that of a
world with the same store and the same signer, at an instant of a kind. -/
def Truthful (P : Instant → Prop) (w : World) (e : Exchange Backend) : Prop :=
  e.request.isCaching = false → ∃ v : World, v.store = w.store ∧ v.signer = w.signer ∧ P v.now ∧
    e.answer = (World.answer e.request v).1

theorem truthful_of_answers {a : Backend.Answer r}
    (h : (untrusted.within fun v => P v.now).Answers r w a w') : Truthful P w ⟨r, a⟩ := by
  obtain ⟨hnow, cache, now, h⟩ := h
  intro hr
  cases h with
  | cached _ hcaching => exact absurd hcaching (by simp [hr])
  | done _ => exact ⟨{ w with cache, now }, rfl, rfl, now_answer (r := r) ▸ hnow, rfl⟩

/-- A request that leaves the store alone does so here too, and every request the signer. -/
theorem kept_of_answers (hr : ∀ v, (World.answer r v).2.store = v.store) {a : Backend.Answer r}
    (h : untrusted.Answers r w a w') : w'.store = w.store ∧ w'.signer = w.signer := by
  obtain ⟨cache, now, h⟩ := h
  cases h with
  | cached _ _ => exact ⟨rfl, rfl⟩
  | done _ => exact ⟨hr _, signer_answer⟩

theorem CachesOnly.store (hr : CachesOnly r) (v : World) :
    (World.answer r v).2.store = v.store := by
  obtain ⟨cache, hcache⟩ := hr v
  rw [hcache]

/-- **As long as only the cache is changed, everything that is told is the truth of the world from
the beginning.** -/
theorem truthful_of_follows (h : (untrusted.within fun v => P v.now).Follows w t w')
    (ht : ∀ e ∈ t, CachesOnly e.request) (he : e ∈ t) : Truthful P w e := by
  have hstep : ∀ e ∈ t, ∀ m m',
      (untrusted.within fun v => P v.now).Answers e.request m e.answer m' →
      m.store = w.store ∧ m.signer = w.signer → m'.store = w.store ∧ m'.signer = w.signer := by
    intro e he m m' ha hm
    obtain ⟨hstore, hsigner⟩ := kept_of_answers (ht e he).store ha.2
    exact ⟨hstore.trans hm.1, hsigner.trans hm.2⟩
  obtain ⟨m, m', ⟨hstore, hsigner⟩, ha⟩ := h.exists_of_mem hstep ⟨rfl, rfl⟩ he
  intro hr
  obtain ⟨v, hv, hv', hnow, hanswer⟩ := truthful_of_answers ha hr
  exact ⟨v, hv.trans hstore, hv'.trans hsigner, hnow, hanswer⟩

end AccessControl.World
