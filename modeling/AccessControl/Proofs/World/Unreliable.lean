import AccessControl.Cached.Access
import AccessControl.Proofs.Program.Service
import AccessControl.Proofs.Text.CacheKey
import AccessControl.Trial.Fault
import AccessControl.World

/-! # An outside with a cache that cannot be relied on

The stores in memory do what they are asked.  The cache beside them may lose a value or have
it replaced by one that stands for nothing, at any time, and time may pass (`World.Drifts`).
Reading from it and writing to it may fail, with or without having been done; of a removal
only the report may be lost.  Which other requests may fail without being done is a parameter
(`World.unreliable`).

What a step may do to the cache is said by the values that may be there afterwards and were
not there before (`World.OnlyCaches`).  Steps that only cache what is right for the store
therefore keep everything right that was.
-/
namespace AccessControl

/-- A value that stands for no item of the kind of a key. -/
def CacheKey.Spoilt : CacheKey → String → Prop
  | .userRoles _, value => Json.decode? (α := Cached.UserRoles) value = none
  | .userPermissions _, value => Json.decode? (α := Cached.UserPermissions) value = none
  | .rolePermissions _, value => Json.decode? (α := Cached.RolePermissions) value = none
  | .tokenValidity _ _, value => Json.decode? (α := Cached.LiveToken) value = none
  | .securityStamp _, value => Json.decode? (α := Cached.Stamp) value = none

/-- Reading from the cache and writing to it, which may fail without being done. -/
def Backend.Request.mayBeLost : Backend.Request → Bool
  | .cacheGet _ => true
  | .cacheSet _ _ _ => true
  | _ => false

/-- The requests to the cache. -/
def Backend.Request.isCaching : Backend.Request → Bool
  | .cacheGet _ => true
  | .cacheSet _ _ _ => true
  | .cacheDelete _ => true
  | _ => false

namespace World

/-- A world with a store and nothing else: the cache is empty, time has not begun, and every
identifier is zero. -/
def ofStore (store : Store) : World where
  store
  cache := .empty
  signer := ⟨[], "", ""⟩
  now := ⟨0, by decide, by decide⟩
  supply _ := .repeating 0
  drawn := 0

/-- A value is in the cache under a key, whether or not its deadline has come. -/
def Holds (w : World) (key : CacheKey) (value : String) : Prop :=
  (w.cache.entries.find? key.text).map (·.value) = some value

/-- From one world to another nothing but the cache and the time has changed, and a value
that is new in the cache stands for nothing or is one of those added. -/
structure OnlyCaches (added : CacheKey → String → Prop) (w w' : World) : Prop where
  store : w'.store = w.store
  signer : w'.signer = w.signer
  supply : w'.supply = w.supply
  drawn : w'.drawn = w.drawn
  /-- Every value was there, or stands for nothing, or was added. -/
  held : ∀ key value, w'.Holds key value → w.Holds key value ∨ key.Spoilt value ∨ added key value

/-- What may happen to a world by itself: cached values get lost or spoilt, and time passes. -/
abbrev Drifts : World → World → Prop := OnlyCaches fun _ _ => False

namespace OnlyCaches
variable {added added' : CacheKey → String → Prop} {u v w : World}

theorem refl (w : World) : OnlyCaches added w w := ⟨rfl, rfl, rfl, rfl, fun _ _ => .inl⟩

theorem mono (h : OnlyCaches added v w) (hadded : ∀ key value, added key value → added' key value) :
    OnlyCaches added' v w where
  store := h.store
  signer := h.signer
  supply := h.supply
  drawn := h.drawn
  held key value hw := by
    rcases h.held key value hw with hv | hspoilt | hnew
    · exact .inl hv
    · exact .inr (.inl hspoilt)
    · exact .inr (.inr (hadded key value hnew))

theorem trans (h : OnlyCaches added u v) (h' : OnlyCaches added v w) : OnlyCaches added u w where
  store := h'.store.trans h.store
  signer := h'.signer.trans h.signer
  supply := h'.supply.trans h.supply
  drawn := h'.drawn.trans h.drawn
  held key value hw := by
    rcases h'.held key value hw with hv | hnew
    · exact h.held key value hv
    · exact .inr hnew

/-- A drift adds nothing, whatever else is added. -/
theorem of_drifts (h : Drifts v w) : OnlyCaches added v w := h.mono fun _ _ h => h.elim

end OnlyCaches

/-! ## Answers -/

/-- An answer of a world whose cache cannot be relied on: the request is done and answered, or
it fails, with or without being done. -/
inductive Answered (mayFail : Backend.Request → Bool) (r : Backend.Request) (w : World) :
    Backend.Answer r → World → Prop where
  /-- The request is done. -/
  | served : Answered mayFail r w (World.answer r w).1 (World.answer r w).2
  /-- The request fails and is not done. -/
  | refused {failure : Failure} {a : Backend.Answer r} (h : mayFail r = true)
      (ha : Trial.failed failure r = some a) : Answered mayFail r w a w
  /-- The request to the cache is done, and yet said to have failed. -/
  | unconfirmed {failure : Failure} {a : Backend.Answer r} (h : r.isCaching = true)
      (ha : Trial.failed failure r = some a) : Answered mayFail r w a (World.answer r w).2

/-- The outside that drifts before every answer. -/
def unreliable (mayFail : Backend.Request → Bool) : Outside Backend World :=
  ⟨fun r w a w' => ∃ v, Drifts w v ∧ Answered mayFail r v a w'⟩

variable {mayFail : Backend.Request → Bool} {w : World}

/-- The exchanges of a program that is run on a world. -/
def exchanges {α : Type} : Program Backend α → World → List (Exchange Backend)
  | .done _, _ => []
  | .call r next, w =>
    ⟨r, (World.answer r w).1⟩ :: exchanges (next (World.answer r w).1) (World.answer r w).2

theorem transcript_exchanges {α : Type} (p : Program Backend α) (w : World) :
    p.Transcript (exchanges p w) (World.run p w).1 := by
  induction p generalizing w with
  | done a => exact .done a
  | call r next ih => exact .call (ih (World.answer r w).1 (World.answer r w).2)

/-- **A program that is run on a world has a run there whose cache may be unreliable.** -/
theorem follows_exchanges {α : Type} (p : Program Backend α) (w : World) :
    (unreliable mayFail).Follows w (exchanges p w) (World.run p w).2 := by
  induction p generalizing w with
  | done a => exact .nil w
  | call r next ih =>
    exact .cons ⟨w, .refl w, .served⟩ (ih (World.answer r w).1 (World.answer r w).2)

theorem yields_of_ensures {α : Type} {p : Program Backend α} {Q : α → World → Prop}
    (h : (unreliable mayFail).Ensures p w Q) : (unreliable mayFail).Yields p w Q :=
  ⟨h, _, _, _, transcript_exchanges p w, follows_exchanges p w⟩

theorem ensures_of_answered {r : Backend.Request} {Q : Backend.Answer r → World → Prop}
    (h : ∀ v a w', Drifts w v → Answered mayFail r v a w' → Q a w') :
    (unreliable mayFail).Ensures (Program.request (I := Backend) r) w Q := by
  rw [Outside.ensures_request]
  rintro a w' ⟨v, hv, ha⟩
  exact h v a w' hv ha

/-- After a drift an answered request was done, or nothing was. -/
theorem done_or_not_of_answers {r : Backend.Request} {a : Backend.Answer r} {w' : World}
    (h : (unreliable mayFail).Answers r w a w') :
    ∃ v, Drifts w v ∧ (w' = (World.answer r v).2 ∨ w' = v) := by
  obtain ⟨v, hv, ha⟩ := h
  cases ha with
  | served => exact ⟨v, hv, .inl rfl⟩
  | refused _ _ => exact ⟨_, hv, .inr rfl⟩
  | unconfirmed _ _ => exact ⟨v, hv, .inl rfl⟩

/-- **What drifts and a done request keep is kept by every answer**, whether the request is done or
fails. -/
theorem preserved_of_answers {P : World → Prop} {r : Backend.Request} {a : Backend.Answer r}
    {w' : World} (hdrifts : ∀ {v v'}, P v → Drifts v v' → P v')
    (hdone : ∀ {v}, P v → P (World.answer r v).2) (ha : (unreliable mayFail).Answers r w a w')
    (hw : P w) : P w' := by
  obtain ⟨v, hv, rfl | rfl⟩ := done_or_not_of_answers ha
  · exact hdone (hdrifts hw hv)
  · exact hdrifts hw hv

/-- What is not said to have failed is done. -/
theorem served_of_answered {r : Backend.Request} {a : Backend.Answer r} {w' : World}
    (h : Answered mayFail r w a w') (ha : ∀ failure, Trial.failed failure r ≠ some a) :
    a = (World.answer r w).1 ∧ w' = (World.answer r w).2 := by
  cases h with
  | served => exact ⟨rfl, rfl⟩
  | refused _ hfailed => exact absurd hfailed (ha _)
  | unconfirmed _ hfailed => exact absurd hfailed (ha _)

/-- **A request that changes nothing is answered from the world as it is then**, or it fails. -/
theorem read_of_answers {r : Backend.Request} {a : Backend.Answer r} {w' : World}
    (hcache : r.isCaching = false) (hkept : ∀ v, (World.answer r v).2 = v)
    (h : (unreliable mayFail).Answers r w a w') :
    Drifts w w' ∧ (a = (World.answer r w').1 ∨ ∃ failure, Trial.failed failure r = some a) := by
  obtain ⟨v, hv, ha⟩ := h
  cases ha with
  | served =>
    rw [hkept v]
    exact ⟨hv, .inl rfl⟩
  | refused _ hfailed => exact ⟨hv, .inr ⟨_, hfailed⟩⟩
  | unconfirmed hcaching _ => exact absurd hcaching (by simp [hcache])

/-- A request that goes to a store is done, or it fails and is not. -/
theorem ensures_served {r : Backend.Request} (hcache : r.isCaching = false)
    {Q : Backend.Answer r → World → Prop}
    (h : ∀ v, Drifts w v → Q (World.answer r v).1 (World.answer r v).2)
    (hrefused : ∀ v failure a, Drifts w v → mayFail r = true → Trial.failed failure r = some a →
      Q a v) :
    (unreliable mayFail).Ensures (Program.request (I := Backend) r) w Q := by
  refine ensures_of_answered fun v a w' hv ha => ?_
  cases ha with
  | served => exact h v hv
  | refused hfail ha => exact hrefused v _ a hv hfail ha
  | unconfirmed hcaching _ => exact absurd hcaching (by simp [hcache])

/-! ## Reading and writing the store -/

/-- A store may fail. -/
def StoresFail (mayFail : Backend.Request → Bool) : Prop :=
  ∃ r : Backend.Request, r.isCaching = false ∧ mayFail r = true

/-- A step ends in a value; or it fails, and then a store may fail. -/
def Gives {α : Type} (mayFail : Backend.Request → Bool) (a : α) (r : Except Failure α) : Prop :=
  r = .ok a ∨ StoresFail mayFail ∧ ∃ failure, r = .error failure

theorem Gives.eq {α : Type} {a b : α} (h : Gives mayFail a (.ok b)) : b = a := by
  rcases h with h | ⟨-, failure, h⟩
  · exact Except.ok.inj h
  · cases h

/-- What a write may end in. -/
theorem writeGiving_cases {α : Type} {f : Store → Except Failure (α × Store)}
    {Q : Except Failure α → World → Prop}
    (hok : ∀ a store, f w.store = .ok (a, store) → Q (.ok a) { w with store })
    (herror : ∀ failure, f w.store = .error failure → Q (.error failure) w) :
    Q (writeGiving f w).1 (writeGiving f w).2 := by
  unfold writeGiving
  split
  · rename_i a store h
    exact hok a store h
  · rename_i failure h
    exact herror failure h

theorem write_cases {f : Store → Except Failure Store} {Q : Except Failure Unit → World → Prop}
    (hok : ∀ store, f w.store = .ok store → Q (.ok ()) { w with store })
    (herror : ∀ failure, f w.store = .error failure → Q (.error failure) w) :
    Q (World.write f w).1 (World.write f w).2 := by
  apply writeGiving_cases
  · intro a store h
    cases hf : f w.store with
    | ok s =>
      rw [hf] at h
      obtain ⟨rfl, rfl⟩ := Prod.mk.inj (Except.ok.inj h)
      exact hok s hf
    | error failure =>
      rw [hf] at h
      cases h
  · intro failure h
    cases hf : f w.store with
    | ok s =>
      rw [hf] at h
      cases h
    | error failure' =>
      rw [hf] at h
      obtain rfl := Except.error.inj h
      exact herror failure' hf

/-- A write that succeeds leads to the store that was to be written. -/
theorem of_write_eq_ok {f : Store → Except Failure Store}
    (h : Except.ok () = (World.write f w).1) : f w.store = .ok (World.write f w).2.store := by
  revert h
  exact write_cases (Q := fun a w' => Except.ok () = a → f w.store = .ok w'.store)
    (fun _ hstore _ => hstore) fun _ _ h => nomatch h

section Store
variable {role : RoleId} {user : UserId}

theorem ensures_updateStamp {stamp : SecurityStamp}
    {Q : Except Failure Unit → World → Prop}
    (hok : ∀ v store, Drifts w v → w.store.updateStamp user stamp = .ok store →
      Q (.ok ()) { v with store })
    (herror : ∀ v failure, Drifts w v → Q (.error failure) v) :
    (unreliable mayFail).Ensures (Backend.updateStamp user stamp).run w Q :=
  ensures_served (r := .updateStamp user stamp) rfl (fun v hv =>
    write_cases (fun store h => hok v store hv (hv.store ▸ h))
      (fun failure _ => herror v failure hv))
    fun v failure _ hv _ ha => Option.some.inj ha ▸ herror v failure hv

/-- **A stamp that is found is the stored one**, and looking it up changes nothing. -/
theorem findStamp_answers {w' : World} {a : Backend.Answer (.findStamp user)}
    (h : (unreliable mayFail).Answers (.findStamp user) w a w') :
    Drifts w w' ∧ ∀ found, a = .ok found → found = w.store.stampOf user := by
  obtain ⟨hv, rfl | ⟨failure, hfailed⟩⟩ := read_of_answers rfl (fun _ => rfl) h
  · exact ⟨hv, fun found hfound => hv.store ▸ (Except.ok.inj hfound).symm⟩
  · obtain rfl := Option.some.inj hfailed
    exact ⟨hv, nofun⟩

/-- **A record that is found to be live is so**, and looking it up changes nothing. -/
theorem isTokenLive_answers {w' : World} {tokenKey : TokenKey} {now : Instant}
    {a : Backend.Answer (.isTokenLive user tokenKey now)}
    (h : (unreliable mayFail).Answers (.isTokenLive user tokenKey now) w a w') :
    Drifts w w' ∧ ∀ live, a = .ok live → live = w.store.isTokenLive user tokenKey now := by
  obtain ⟨hv, rfl | ⟨failure, hfailed⟩⟩ := read_of_answers rfl (fun _ => rfl) h
  · exact ⟨hv, fun live hlive => hv.store ▸ (Except.ok.inj hlive).symm⟩
  · obtain rfl := Option.some.inj hfailed
    exact ⟨hv, nofun⟩

end Store

/-- A verification never fails to be done, and changes nothing. -/
theorem verify_answered {w' : World} {token : String} {a : Backend.Answer (.verify token)}
    (h : Answered mayFail (.verify token) w a w') :
    w' = w ∧ a = w.signer.verify w.now token :=
  (served_of_answered h nofun).symm

theorem verify_answers {w' : World} {token : String} {a : Backend.Answer (.verify token)}
    (h : (unreliable mayFail).Answers (.verify token) w a w') :
    Drifts w w' ∧ a = w.signer.verify w'.now token := by
  obtain ⟨v, hv, ha⟩ := h
  obtain ⟨rfl, rfl⟩ := verify_answered ha
  exact ⟨hv, hv.signer ▸ rfl⟩

/-- The clock is always answered, with the time that it shows. -/
theorem now_answers {w' : World} {now : Backend.Answer .now}
    (h : (unreliable mayFail).Answers .now w now w') : Drifts w w' ∧ now = w'.now := by
  obtain ⟨hv, hread | ⟨_, hfailed⟩⟩ := read_of_answers rfl (fun _ => rfl) h
  · exact ⟨hv, hread⟩
  · cases hfailed

/-! ## Cached items -/

section Cache
variable {key : CacheKey}

theorem holds_erase {key : String} {key' : CacheKey} {value : String}
    (h : Holds { w with cache := { w.cache with entries := w.cache.entries.erase key } } key'
      value) :
    key'.text ≠ key ∧ w.Holds key' value := by
  rw [Holds, Table.find?_erase] at h
  split at h
  · cases h
  · rename_i hne
    exact ⟨hne, h⟩

theorem drifts_delete (w : World) (key : String) :
    Drifts w { w with cache := w.cache.delete key } :=
  ⟨rfl, rfl, rfl, rfl, fun _ _ h => .inl (holds_erase h).2⟩

theorem holds_get {key : String} {key' : CacheKey} {value : String}
    (h : (World.answer (.cacheGet key) w).2.Holds key' value) : w.Holds key' value := by
  change Holds { w with cache := (w.cache.get w.now key).2 } key' value at h
  rw [MemoryCache.get_eq] at h
  split at h
  · exact h
  · split at h
    · exact h
    · exact (holds_erase h).2

theorem drifts_get (w : World) (key : String) :
    Drifts w (World.answer (.cacheGet key) w).2 :=
  ⟨rfl, rfl, rfl, rfl, fun _ _ h => .inl (holds_get h)⟩

/-- What the cache answers is held. -/
theorem holds_of_get {value : String}
    (h : (World.answer (.cacheGet key.text) w).1 = .ok (some value)) : w.Holds key value := by
  have hget : (w.cache.get w.now key.text).1 = some value := Except.ok.inj h
  rw [MemoryCache.get_eq] at hget
  rw [Holds]
  split at hget
  · cases hget
  · rename_i entry hentry
    split at hget
    · rw [hentry]
      exact hget
    · cases hget

theorem holds_set {key : String} {key' : CacheKey} {value value' : String} {seconds : UInt32}
    (h : Holds { w with cache := w.cache.set w.now key value seconds } key' value') :
    w.Holds key' value' ∨ key'.text = key ∧ value' = value := by
  rw [Holds, MemoryCache.set] at h
  split at h
  · exact .inl h
  · simp only [Table.find?_insert] at h
    split at h
    · rename_i hkey
      exact .inr ⟨hkey, (Option.some.inj h).symm⟩
    · left
      -- A sweep only takes entries away, so what is there after it was there before.
      split at h
      · simp only [MemoryCache.sweep, Table.find?_filter, Option.map_eq_some_iff,
          Option.filter_eq_some_iff] at h
        obtain ⟨entry, ⟨hentry, -⟩, hvalue⟩ := h
        exact Option.map_eq_some_iff.mpr ⟨entry, hentry, hvalue⟩
      · exact h

/-- **Removing an item takes effect**, even if it is said to have failed. -/
theorem remove_answers (hr : mayFail (.cacheDelete key.text) = false) {w' : World}
    {a : Backend.Answer (.cacheDelete key.text)}
    (h : (unreliable mayFail).Answers (.cacheDelete key.text) w a w') :
    Drifts w w' ∧ ∀ value, ¬w'.Holds key value := by
  obtain ⟨v, hv, ha⟩ := h
  have hdrifts : Drifts w (World.answer (.cacheDelete key.text) v).2 :=
    hv.trans (drifts_delete v key.text)
  have hgone : ∀ value, ¬(World.answer (.cacheDelete key.text) v).2.Holds key value :=
    fun value hheld => (holds_erase hheld).1 rfl
  cases ha with
  | served => exact ⟨hdrifts, hgone⟩
  | refused hfail _ => exact absurd hfail (by simp [hr])
  | unconfirmed _ _ => exact ⟨hdrifts, hgone⟩

theorem ensures_remove (hr : mayFail (.cacheDelete key.text) = false) {Q : Unit → World → Prop}
    (h : ∀ v, Drifts w v → (∀ value, ¬v.Holds key value) → Q () v) :
    (unreliable mayFail).Ensures (Cached.remove key) w Q := by
  rw [Cached.remove, Backend.request_eq, Outside.ensures_bind, Outside.ensures_request]
  intro a w' ha
  obtain ⟨hdrifts, hgone⟩ := remove_answers hr ha
  exact Outside.ensures_pure.mpr (h w' hdrifts hgone)

/-- **Caching an item adds at most that item.** -/
theorem ensures_store {α : Type} [Cached.Item α] {seconds : UInt32} {item : α}
    {Q : Unit → World → Prop}
    (h : ∀ v, OnlyCaches (fun key value =>
      key = Cached.Item.key item ∧ value = Json.write item) w v → Q () v) :
    (unreliable mayFail).Ensures (Cached.store seconds item) w Q := by
  have hset : ∀ v, Drifts w v → Q () (World.answer
      (.cacheSet (Cached.Item.key item).text (Json.write item) seconds) v).2 := by
    intro v hv
    refine h _ (OnlyCaches.trans (.of_drifts hv) ⟨rfl, rfl, rfl, rfl, fun key value hheld => ?_⟩)
    rcases holds_set hheld with hold | ⟨hkey, hvalue⟩
    · exact .inl hold
    · exact .inr (.inr ⟨CacheKey.text_injective hkey, hvalue⟩)
  rw [Cached.store, Cached.write, Backend.request_eq, Outside.ensures_bind]
  refine ensures_of_answered fun v a w' hv ha => ?_
  rw [Outside.ensures_pure]
  cases ha with
  | served => exact hset v hv
  | refused _ _ => exact h _ (.of_drifts hv)
  | unconfirmed _ _ => exact hset v hv

/-- A removal is one request. -/
theorem transcript_remove {t : List (Exchange Backend)} {r : Except Failure Unit}
    (h : (liftM (Cached.remove key) : Service Unit).run.Transcript t r) :
    ∃ removed, t = [⟨.cacheDelete key.text, removed⟩] := by
  obtain ⟨_, -, hremove⟩ := Program.transcript_run_lift_iff.mp h
  obtain ⟨removed, rest, rfl, hrest⟩ := Program.transcript_call_iff.mp hremove
  obtain ⟨rfl, -⟩ := Program.transcript_done_iff.mp hrest
  exact ⟨removed, rfl⟩

/-- **A step, a removal, and then the end of the step**: where the whole ends in a result, the step
has ended in one. -/
theorem transcript_outcome_remove_ok {α β : Type} {x : Service α} {f : α → Service β}
    {t : List (Exchange Backend)} {b : β}
    (h : (do
      let ended ← Backend.outcome x
      Cached.remove key
      let a ← Backend.conclude ended
      f a : Service β).run.Transcript t (.ok b)) :
    ∃ a t₁ removed t₂, t = t₁ ++ ⟨.cacheDelete key.text, removed⟩ :: t₂ ∧
      x.run.Transcript t₁ (.ok a) ∧ (f a).run.Transcript t₂ (.ok b) := by
  obtain ⟨t₁, ended, _, rfl, hx, h₁⟩ := Program.transcript_run_outcome_bind_iff.mp h
  obtain ⟨_, _, _, rfl, hremove, h₂⟩ := Program.transcript_run_bind_ok_iff.mp h₁
  obtain ⟨removed, rfl⟩ := transcript_remove hremove
  obtain ⟨_, a, t₂, rfl, hconclude, hrest⟩ := Program.transcript_run_bind_ok_iff.mp h₂
  obtain ⟨rfl, rfl⟩ := Program.transcript_run_conclude_iff.mp hconclude
  exact ⟨a, t₁, removed, t₂, rfl, hx, hrest⟩

variable (key) in
/-- **An item that is read was held**, since a spoilt value stands for none. -/
theorem ensures_read {α : Type} [Json.Form α] (hr : mayFail (.cacheDelete key.text) = false)
    (hspoilt : ∀ value, key.Spoilt value → Json.decode? (α := α) value = none)
    {Q : Option α → World → Prop} (hnone : ∀ v, Drifts w v → Q none v)
    (hsome : ∀ v value item, Drifts w v → w.Holds key value → Json.decode? value = some item →
      Q (some item) v) :
    (unreliable mayFail).Ensures (Cached.read α key) w Q := by
  rw [Cached.read, Backend.request_eq, Outside.ensures_bind]
  refine ensures_of_answered fun v a w' hv ha => ?_
  cases ha with
  | served =>
    have hv' := hv.trans (drifts_get v key.text)
    have hheld : ∀ value, (World.answer (.cacheGet key.text) v).1 = .ok (some value) →
        v.Holds key value := fun _ h => holds_of_get h
    generalize World.answer (.cacheGet key.text) v = answered at hv' hheld ⊢
    obtain ⟨found, v'⟩ := answered
    cases found with
    | error failure => exact Outside.ensures_pure.mpr (hnone v' hv')
    | ok value? =>
      cases value? with
      | none => exact Outside.ensures_pure.mpr (hnone v' hv')
      | some value =>
        dsimp only
        cases hdecoded : Json.decode? (α := α) value with
        | some item =>
          refine Outside.ensures_pure.mpr ?_
          rcases hv.held key value (hheld value rfl) with hw | hlost | hno
          · exact hsome v' value item hv' hw hdecoded
          · exact absurd (hspoilt value hlost) (by simp [hdecoded])
          · exact hno.elim
        | none =>
          -- A value that stands for nothing is removed, and nothing is answered.
          rw [Outside.ensures_bind]
          refine ensures_remove hr fun u hu _ => ?_
          exact Outside.ensures_pure.mpr (hnone u (hv'.trans hu))
  | refused _ ha =>
    obtain rfl := Option.some.inj ha
    exact Outside.ensures_pure.mpr (hnone v hv)
  | unconfirmed _ ha =>
    obtain rfl := Option.some.inj ha
    exact Outside.ensures_pure.mpr (hnone _ (hv.trans (drifts_get v key.text)))

end Cache
end World
end AccessControl
