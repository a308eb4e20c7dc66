import AccessControl.Proofs.Cached.Maps
import AccessControl.Proofs.Program.Service
import AccessControl.Proofs.Store.Cache
import AccessControl.Proofs.World.Answers
import AccessControl.Proofs.World.Faultless

/-! # The cached items are five maps

Under a cache that keeps a text for each key (`Cached.ActsAsMap`), the programs that cache, look
up and remove items are answered as five separate maps are, whatever items and owners there are
and in whatever order the calls come: each text that is written is read back as its item, and no
two items share a key.

The cache in memory is such a cache as long as the clock stands (`actsAsMap_standing`).
-/
namespace AccessControl.Cached
open Outside Program
variable {σ : Type} {O : Outside Backend σ} {shown : σ → String → Option String} {s : σ}
  {seconds : UInt32}

/-- **A cache that behaves as a map from keys to texts**, given what it shows in each state: it
answers every request, a reading with what it shows; what is written for some time is shown until
it is written again or removed. -/
structure ActsAsMap (O : Outside Backend σ) (shown : σ → String → Option String) : Prop where
  answers : ∀ r : Backend.Request, r.isCaching = true → ∀ s, ∃ a s', O.Answers r s a s'
  get : ∀ key s a s', O.Answers (.cacheGet key) s a s' →
    a = .ok (shown s key) ∧ shown s' = shown s
  set : ∀ key value (seconds : UInt32) s a s', seconds ≠ 0 →
    O.Answers (.cacheSet key value seconds) s a s' →
    shown s' = Function.update (shown s) key (some value)
  delete : ∀ key s a s', O.Answers (.cacheDelete key) s a s' →
    shown s' = Function.update (shown s) key none

namespace ActsAsMap

theorem yields_store {α : Type} [Item α] (h : ActsAsMap O shown) (hseconds : seconds ≠ 0)
    (item : α) : O.Yields (Cached.store seconds item) s fun _ s' =>
      shown s' = Function.update (shown s) (Item.key item).text (some (Json.write item)) := by
  rw [Cached.store, Cached.write, Backend.request_eq]
  refine (yields_request (h.answers (.cacheSet _ _ _) rfl s) fun a s' ha => ?_).bind
    fun _ _ hs => yields_pure hs
  exact h.set _ _ _ _ _ _ hseconds ha

theorem yields_remove (h : ActsAsMap O shown) (key : CacheKey) :
    O.Yields (Cached.remove key) s fun _ s' =>
      shown s' = Function.update (shown s) key.text none := by
  rw [Cached.remove, Backend.request_eq]
  exact (yields_request (h.answers (.cacheDelete _) rfl s) fun a s' ha =>
    h.delete _ _ _ _ ha).bind fun _ _ hs => yields_pure hs

/-- A text that stands for nothing is removed when it is looked up. -/
theorem yields_read (α : Type) [Json.Form α] (h : ActsAsMap O shown) (key : CacheKey) :
    O.Yields (Cached.read α key) s fun found s' =>
      found = (shown s key.text).bind Json.decode? ∧
      (shown s' = shown s ∨
        (shown s key.text).bind (Json.decode? (α := α)) = none ∧
          shown s' = Function.update (shown s) key.text none) := by
  rw [Cached.read, Backend.request_eq]
  refine (yields_request (h.answers (.cacheGet _) rfl s) fun a s' ha => h.get _ _ _ _ ha).bind ?_
  rintro _ s' ⟨rfl, hs⟩
  rw [← hs]
  cases hshown : shown s' key.text with
  | none => exact yields_pure ⟨rfl, .inl rfl⟩
  | some value =>
    dsimp only [Option.bind_some]
    cases hdecoded : Json.decode? (α := α) value with
    | some item => exact yields_pure ⟨rfl, .inl rfl⟩
    | none => exact (h.yields_remove key).bind fun _ _ hgone => yields_pure ⟨rfl, .inr ⟨rfl, hgone⟩⟩

end ActsAsMap

/-! ## A call does to the maps what it should -/

/-- A text that stands for nothing may go. -/
theorem ofTexts_of_read {texts texts' : String → Option String} (key : CacheKey)
    (h : texts' = texts ∨
      (texts key.text).bind key.decode? = none ∧ texts' = Function.update texts key.text none) :
    Maps.ofTexts texts' = Maps.ofTexts texts := by
  rcases h with rfl | ⟨hnone, rfl⟩
  · rfl
  · rw [Maps.ofTexts_update, Option.bind_none]
    exact Maps.put_eq_self ((Maps.get_ofTexts texts key).trans hnone)

namespace ActsAsMap

/-- An item that is cached is what its text stands for. -/
theorem yields_put {α : Type} [Item α] [Json.Faithful α] (h : ActsAsMap O shown)
    (hseconds : seconds ≠ 0) (item : α) {key : CacheKey} {stored : key.Item}
    (hkey : Item.key item = key) (hstored : Json.decode? (Json.write item) = some item →
      key.decode? (Json.write item) = some stored) :
    O.Yields (Cached.store seconds item) s fun a s' =>
      (a, Maps.ofTexts (shown s')) = ((), (Maps.ofTexts (shown s)).put key (some stored)) := by
  subst hkey
  refine (h.yields_store hseconds item).mono fun _ s' hs => Prod.ext rfl ?_
  rw [hs, Maps.ofTexts_update, Option.bind_some, hstored (Json.decode?_write item)]

/-- **A call is answered as the maps say, and does to them what it should.** -/
theorem yields_program (h : ActsAsMap O shown) (hseconds : seconds ≠ 0) (c : Call) :
    O.Yields (c.program seconds) s fun a s' =>
      (a, Maps.ofTexts (shown s')) = c.step (Maps.ofTexts (shown s)) := by
  cases c with
  | setUserRoles item => exact h.yields_put hseconds item rfl id
  | setUserPermissions item => exact h.yields_put hseconds item rfl id
  | setRolePermissions item => exact h.yields_put hseconds item rfl id
  | setStamp item => exact h.yields_put hseconds item rfl id
  | setLive item => exact h.yields_put hseconds item rfl id
  | userRoles user =>
    exact (h.yields_read UserRoles (.userRoles user)).mono fun _ _ hread =>
      Prod.ext hread.1 (ofTexts_of_read (.userRoles user) hread.2)
  | userPermissions user =>
    exact (h.yields_read UserPermissions (.userPermissions user)).mono fun _ _ hread =>
      Prod.ext hread.1 (ofTexts_of_read (.userPermissions user) hread.2)
  | rolePermissions role =>
    exact (h.yields_read RolePermissions (.rolePermissions role)).mono fun _ _ hread =>
      Prod.ext hread.1 (ofTexts_of_read (.rolePermissions role) hread.2)
  | stamp user =>
    exact (h.yields_read Stamp (.securityStamp user)).mono fun _ _ hread =>
      Prod.ext hread.1 (ofTexts_of_read (.securityStamp user) hread.2)
  | isLive user key =>
    refine (h.yields_read LiveToken (.tokenValidity user key)).bind fun found s' hread => ?_
    refine yields_pure (Prod.ext (congrArg Option.isSome hread.1) ?_)
    exact ofTexts_of_read (.tokenValidity user key) hread.2
  | remove key =>
    refine (h.yields_remove key).mono fun _ s' hs => Prod.ext rfl ?_
    rw [hs, Maps.ofTexts_update, Option.bind_none]
    rfl

/-- What one call does, calls one after the other do. -/
theorem yields_runAll (h : ActsAsMap O shown) (hseconds : seconds ≠ 0) (calls : List Call) :
    O.Yields (runAll seconds calls) s fun answers s' =>
      (answers, Maps.ofTexts (shown s')) = Maps.run calls (Maps.ofTexts (shown s)) := by
  induction calls generalizing s with
  | nil => exact yields_pure rfl
  | cons c calls ih =>
    refine (h.yields_program hseconds c).bind fun a s' ha => ?_
    refine ih.bind fun answers s'' hanswers => yields_pure ?_
    rw [Maps.run, ← ha, ← hanswers]

end ActsAsMap

/-- **The cached items are five maps.**  Calls one after the other have a run, and in every run
they are answered as five maps are, beginning with the items that the cached texts stand for.  Of
these answers, those about one item are what the calls about it are answered with if they are the
only ones. -/
theorem cached_items_are_five_maps (h : ActsAsMap O shown) (hseconds : seconds ≠ 0) (s : σ)
    (calls : List Call) :
    O.Yields (runAll seconds calls) s (fun answers s' =>
      (answers, Maps.ofTexts (shown s')) = Maps.run calls (Maps.ofTexts (shown s))) ∧
    ∀ key : CacheKey, ∃ alone : Answers,
      O.Yields (runAll seconds (calls.filter fun c => c.key = key)) s
        (fun answers _ => answers = alone) ∧
      O.Yields (runAll seconds calls) s
        (fun answers _ => answers.filter (fun answer => answer.1.key = key) = alone) := by
  refine ⟨h.yields_runAll hseconds calls, fun key => ?_⟩
  refine ⟨(Maps.run (calls.filter fun c => c.key = key) (Maps.ofTexts (shown s))).1, ?_, ?_⟩
  · exact (h.yields_runAll hseconds _).mono fun answers s' hrun => congrArg Prod.fst hrun
  · refine (h.yields_runAll hseconds calls).mono fun answers s' hrun => ?_
    obtain rfl : answers = _ := congrArg Prod.fst hrun
    exact filter_answers calls rfl

/-! ## The cache in memory -/

/-- The worlds whose clock stands at an instant, without faults. -/
def standing (now : Instant) : Outside Backend { w : World // w.now = now } :=
  ⟨fun r w a w' => World.faultless.Answers r w.1 a w'.1⟩

/-- What the cache in memory shows while the clock stands. -/
def shownAt (now : Instant) (w : { w : World // w.now = now }) : String → Option String :=
  fun key => w.1.cache.seen now key

/-- A deadline that is not beyond the last instant is still to come. -/
theorem lt_deadline {now : Instant} {seconds : UInt32} (hseconds : seconds ≠ 0)
    (hroom : now.nanos + 4294967295 * Instant.second < 8210266876800 * Instant.second) :
    now < (now.add? (seconds.toNat : Int)).getD now := by
  have hlow := now.low
  have hpos : seconds.toNat ≠ 0 := fun h => hseconds (UInt32.toNat_inj.mp h)
  have hmax : seconds.toNat < 4294967296 := seconds.toNat_lt
  rw [Instant.second] at hroom hlow
  have hfits : -8334601228800 * Instant.second ≤ now.nanos + seconds.toNat * Instant.second ∧
      now.nanos + seconds.toNat * Instant.second < 8210266876800 * Instant.second := by
    rw [Instant.second]
    omega
  rw [Instant.add?, Instant.ofNanos?, dif_pos hfits, Option.getD_some, Instant.lt_def]
  show now.nanos < now.nanos + seconds.toNat * Instant.second
  rw [Instant.second]
  omega

/-- **While the clock stands, the cache in memory behaves as a map from keys to texts**, unless
time is about to end. -/
theorem actsAsMap_standing {now : Instant}
    (hroom : now.nanos + 4294967295 * Instant.second < 8210266876800 * Instant.second) :
    ActsAsMap (standing now) (shownAt now) where
  answers r _ w :=
    ⟨(World.answer r w.1).1, ⟨(World.answer r w.1).2, World.now_answer.trans w.2⟩, rfl, rfl⟩
  get := by
    rintro key ⟨w, rfl⟩ a ⟨w', hnow⟩ ⟨rfl, rfl⟩
    exact ⟨rfl, funext fun other => MemoryCache.seen_get (Instant.lt_irrefl _)⟩
  set := by
    rintro key value seconds ⟨w, rfl⟩ a ⟨w', hnow⟩ hseconds ⟨rfl, rfl⟩
    funext other
    show (w.cache.set w.now key value seconds).seen w.now other = _
    rw [MemoryCache.seen_set hseconds (Instant.lt_irrefl _), Function.update_apply]
    simp [lt_deadline hseconds hroom, Option.filter, shownAt]
  delete := by
    rintro key ⟨w, rfl⟩ a ⟨w', hnow⟩ ⟨rfl, rfl⟩
    funext other
    show (w.cache.delete key).seen w.now other = _
    rw [MemoryCache.seen_delete, Function.update_apply]
    rfl

/-- What a user is given and forbidden is cached in a fresh cache in memory, while what is cached of
the roles of the user is removed, and then both are looked up. -/
theorem cached_items_are_five_maps_in_memory :
    let w : { w : World // w.now = ⟨0, by decide, by decide⟩ } := ⟨.ofStore .empty, rfl⟩
    let item : UserPermissions := ⟨⟨-1⟩, .ofList ["quote\"", "", "back\\slash"], ∅⟩
    (4 : UInt32) ≠ 0 ∧
      (standing ⟨0, by decide, by decide⟩).Yields
        (runAll 4 [.setUserPermissions item, .remove (.userRoles ⟨-1⟩), .userPermissions ⟨-1⟩,
          .userRoles ⟨-1⟩]) w
        fun answers _ => answers = [⟨.setUserPermissions item, ()⟩,
          ⟨.remove (.userRoles ⟨-1⟩), ()⟩, ⟨.userPermissions ⟨-1⟩, some item⟩,
          ⟨.userRoles ⟨-1⟩, none⟩] := by
  intro w item
  have hseconds : (4 : UInt32) ≠ 0 := by decide
  have hnothing : Maps.ofTexts (shownAt _ w) = Maps.empty := Maps.ofTexts_none
  have hmap : ActsAsMap (standing ⟨0, by decide, by decide⟩) (shownAt _) :=
    actsAsMap_standing (by decide)
  refine ⟨hseconds, (cached_items_are_five_maps hmap hseconds w _).1.mono fun answers s' hrun => ?_⟩
  rw [hnothing] at hrun
  exact congrArg Prod.fst hrun

end AccessControl.Cached
