import AccessControl.Proofs.Store.Cache
import AccessControl.Proofs.World.Unreliable

/-! # An outside without faults

The runs of a program on a world (`World.run`) are what follows if every request is done
(`faultless`).  So what is ensured without faults holds of such a run, and a run is computed along
the program, request by request.  Requests that are not about what the cache shows under a key
leave alone what is known of the key (`SameFor`).
-/
namespace AccessControl.World
open Outside

/-- The outside that does what it is asked. -/
def faultless : Outside Backend World :=
  ⟨fun r w a w' => a = (World.answer r w).1 ∧ w' = (World.answer r w).2⟩

theorem faultless_follows_exchanges {α : Type} (p : Program Backend α) (w : World) :
    faultless.Follows w (exchanges p w) (World.run p w).2 := by
  induction p generalizing w with
  | done a => exact .nil w
  | call r next ih => exact .cons ⟨rfl, rfl⟩ (ih (World.answer r w).1 (World.answer r w).2)

theorem run_call {α : Type} {r : Backend.Request} {next : Backend.Answer r → Program Backend α}
    {w : World} : World.run (.call r next) w =
      World.run (next (World.answer r w).1) (World.answer r w).2 := rfl

theorem answer_verify {token : String} {w : World} :
    World.answer (.verify token) w = (w.signer.verify w.now token, w) := rfl

/-- What is exchanged in a run leads to where the run does. -/
theorem transcript_and_follows_of_run {α : Type} {p : Program Backend α} {a : α} {w w' : World}
    (h : World.run p w = (a, w')) :
    p.Transcript (exchanges p w) a ∧ faultless.Follows w (exchanges p w) w' := by
  have ht := transcript_exchanges p w
  have hf := faultless_follows_exchanges p w
  rw [h] at ht hf
  exact ⟨ht, hf⟩

/-- What is ensured without faults holds of the run of a program. -/
theorem of_ensures_faultless {α : Type} {p : Program Backend α} {w : World} {Q : α → World → Prop}
    (h : faultless.Ensures p w Q) : Q (World.run p w).1 (World.run p w).2 :=
  h _ _ _ (transcript_exchanges p w) (faultless_follows_exchanges p w)

theorem ensures_faultless_request {r : Backend.Request} {w : World}
    {Q : Backend.Answer r → World → Prop} (h : Q (World.answer r w).1 (World.answer r w).2) :
    faultless.Ensures (Program.request (I := Backend) r) w Q := by
  rw [ensures_request]
  rintro _ _ ⟨rfl, rfl⟩
  exact h

/-- What follows without faults follows with an unreliable cache too. -/
theorem follows_of_faultless {mayFail : Backend.Request → Bool} {t : List (Exchange Backend)}
    {w w' : World} (h : faultless.Follows w t w') : (unreliable mayFail).Follows w t w' := by
  induction h with
  | nil => exact .nil _
  | @cons w m w' e t h _ ih =>
    obtain ⟨hanswer, rfl⟩ := h
    refine .cons ⟨w, .refl w, ?_⟩ ih
    rw [hanswer]
    exact .served

theorem ensures_faultless_remove {key : CacheKey} {w : World}
    {Q : Unit → World → Prop} (h : Q () { w with cache := w.cache.delete key.text }) :
    faultless.Ensures (Cached.remove key) w Q := by
  rw [Cached.remove, Backend.request_eq, ensures_bind]
  exact ensures_faultless_request (r := .cacheDelete key.text) (ensures_pure.mpr h)

theorem run_bind {α β : Type} {p : Program Backend α} {f : α → Program Backend β} {w : World} :
    World.run (p >>= f) w = World.run (f (World.run p w).1) (World.run p w).2 := by
  rw [World.run, Program.interpret_bind]
  rfl

/-- A step that has a result is followed by the next. -/
theorem run_bind_of_ok {α β : Type} {x : Service α} {f : α → Service β} {a : α} {w w' : World}
    (h : World.run x.run w = (.ok a, w')) :
    World.run (x >>= f).run w = World.run (f a).run w' := by
  rw [ExceptT.run_bind, run_bind, h]

/-- A request changes the cache at the most. -/
def CachesOnly (r : Backend.Request) : Prop :=
  ∀ w : World, ∃ cache, (World.answer r w).2 = { w with cache }

theorem ensures_cachesOnly {α : Type} {p : Program Backend α} {w : World}
    (hp : p.Asks CachesOnly) :
    faultless.Ensures p w fun _ w' => ∃ cache, w' = { w with cache } := by
  refine ensures_of_asks hp ?_ ⟨w.cache, rfl⟩
  rintro r v a v' hr ⟨-, rfl⟩ ⟨cache, rfl⟩
  obtain ⟨cache', hcache'⟩ := hr { w with cache }
  exact ⟨cache', hcache'⟩

/-- The requests that look up a stamp, a record, a token or the time, and those to the cache. -/
def Looks : Backend.Request → Prop
  | .findStamp _ => True
  | .isTokenLive _ _ _ => True
  | .verify _ => True
  | .now => True
  | .cacheGet _ => True
  | .cacheSet _ _ _ => True
  | .cacheDelete _ => True
  | _ => False

theorem Looks.cachesOnly {r : Backend.Request} (h : Looks r) : CachesOnly r := by
  intro w
  cases r <;> first | exact ⟨_, rfl⟩ | exact h.elim

/-- A lookup is never refused. -/
theorem Looks.served {r : Backend.Request} (h : Looks r) (failure : Failure) (w : World) :
    Trial.failed failure r ≠ some (World.answer r w).1 := by
  cases r <;> first | exact h.elim | simp [Trial.failed, World.answer, World.look]

/-- From one world to another only the cache has changed, and not what it shows under a key. -/
structure SameFor (key : CacheKey) (w w' : World) : Prop where
  store : w'.store = w.store
  now : w'.now = w.now
  seen : w'.cache.seen w.now key.text = w.cache.seen w.now key.text

theorem SameFor.refl (key : CacheKey) (w : World) : SameFor key w w := ⟨rfl, rfl, rfl⟩

theorem SameFor.trans {key : CacheKey} {u v w : World} (h : SameFor key u v)
    (h' : SameFor key v w) : SameFor key u w where
  store := h'.store.trans h.store
  now := h'.now.trans h.now
  seen := by
    have hseen := h'.seen
    rw [h.now] at hseen
    exact hseen.trans h.seen

/-- Requests that change at the most what the cache shows under other keys. -/
def LeavesShown (key : CacheKey) : Backend.Request → Prop
  | .findStamp _ => True
  | .cacheGet _ => True
  | .cacheSet text _ _ => key.text ≠ text
  | .cacheDelete text => key.text ≠ text
  | _ => False

theorem sameFor_answer {key : CacheKey} {r : Backend.Request} {w : World}
    (h : LeavesShown key r) : SameFor key w (World.answer r w).2 := by
  cases r with
  | findStamp user => exact .refl key w
  | cacheGet text => exact ⟨rfl, rfl, MemoryCache.seen_get (Instant.lt_irrefl _)⟩
  | cacheSet text value seconds =>
    refine ⟨rfl, rfl, ?_⟩
    show (w.cache.set w.now text value seconds).seen w.now key.text = _
    by_cases hseconds : seconds = 0
    · rw [hseconds, MemoryCache.set_zero]
    · rw [MemoryCache.seen_set hseconds (Instant.lt_irrefl _), if_neg h]
  | cacheDelete text =>
    refine ⟨rfl, rfl, ?_⟩
    show (w.cache.delete text).seen w.now key.text = _
    rw [MemoryCache.seen_delete, if_neg h]
  | _ => exact False.elim h

theorem ensures_sameFor {α : Type} {key : CacheKey} {p : Program Backend α} {w : World}
    (hp : p.Asks (LeavesShown key)) : faultless.Ensures p w fun _ w' => SameFor key w w' := by
  refine ensures_of_asks hp ?_ (.refl key w)
  rintro r v _ _ hr ⟨-, rfl⟩ hv
  exact hv.trans (sameFor_answer hr)

/-- **The item that is read is the one that the cache shows.** -/
theorem ensures_faultless_read {α : Type} [Json.Form α] {key : CacheKey} {w : World} :
    faultless.Ensures (Cached.read α key) w fun item? w' =>
      item? = (w.cache.seen w.now key.text).bind Json.decode? ∧
        w'.store = w.store ∧ w'.now = w.now := by
  rw [Cached.read, Backend.request_eq, ensures_bind]
  refine ensures_faultless_request (r := .cacheGet key.text) ?_
  have hget : (World.answer (.cacheGet key.text) w).1 = .ok (w.cache.seen w.now key.text) := rfl
  rw [hget]
  cases w.cache.seen w.now key.text with
  | none => exact ensures_pure.mpr ⟨rfl, rfl, rfl⟩
  | some value =>
    dsimp only
    cases hdecoded : Json.decode? (α := α) value with
    | some item => exact ensures_pure.mpr ⟨hdecoded.symm, rfl, rfl⟩
    | none =>
      rw [ensures_bind]
      exact ensures_faultless_remove (ensures_pure.mpr ⟨hdecoded.symm, rfl, rfl⟩)

end AccessControl.World
