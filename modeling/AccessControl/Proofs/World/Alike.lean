import AccessControl.Proofs.Store.Cache
import AccessControl.Proofs.World.Answers

/-! # Worlds that answer alike

A relation between worlds is kept by a kind of requests if related worlds answer each of these
alike and are related afterwards (`World.AnswersAlike`).  A program that makes no other requests
cannot tell related worlds apart: whatever fails, it is answered in both of them alike.

Two worlds are alike but for the keys of some tokens if they have the same time, signer and
stamps, the same records of all other keys, and caches that show the same under everything but
those keys (`World.AlikeBut`).  Validating a token with another key keeps them so.
-/
namespace AccessControl.World
open Outside Program

/-- The outside that fails as an unreliable one does, but does not drift. -/
def steady (mayFail : Backend.Request → Bool) : Outside Backend World :=
  ⟨fun r w a w' => Answered mayFail r w a w'⟩

theorem steady_follows_exchanges {α : Type} {mayFail : Backend.Request → Bool}
    (p : Program Backend α) (w : World) :
    (steady mayFail).Follows w (exchanges p w) (World.run p w).2 := by
  induction p generalizing w with
  | done a => exact .nil w
  | call r next ih => exact .cons .served (ih (World.answer r w).1 (World.answer r w).2)

/-- What is exchanged without drifts may be exchanged where there are some. -/
theorem unreliable_of_steady {mayFail : Backend.Request → Bool} {w w' : World}
    {t : List (Exchange Backend)} (h : (steady mayFail).Follows w t w') :
    (unreliable mayFail).Follows w t w' := by
  induction h with
  | nil => exact .nil _
  | cons ha _ ih => exact .cons ⟨_, .refl _, ha⟩ ih

/-- **Related worlds answer a kind of requests alike**, and are still related afterwards. -/
def AnswersAlike (R : World → World → Prop) (P : Backend.Request → Prop) : Prop :=
  ∀ w w' r, R w w' → P r → (World.answer r w').1 = (World.answer r w).1 ∧
    R (World.answer r w).2 (World.answer r w').2

namespace AnswersAlike
variable {R : World → World → Prop} {P : Backend.Request → Prop} {v w w' : World}
  {mayFail : Backend.Request → Bool}

/-- Whatever happens to a request in one of the worlds may happen to it in the other. -/
theorem answered (hR : AnswersAlike R P) {r : Backend.Request} (h : R w w') (hr : P r)
    {a : Backend.Answer r} (ha : Answered mayFail r w a v) :
    ∃ v', Answered mayFail r w' a v' ∧ R v v' := by
  obtain ⟨hsame, hrelated⟩ := hR w w' r h hr
  cases ha with
  | served => exact ⟨_, hsame ▸ .served, hrelated⟩
  | refused hfail ha => exact ⟨w', .refused hfail ha, h⟩
  | unconfirmed hcaching ha => exact ⟨_, .unconfirmed hcaching ha, hrelated⟩

/-- **What is exchanged with one of the worlds may be exchanged with the other.** -/
theorem follows (hR : AnswersAlike R P) (h : R w w') {t : List (Exchange Backend)}
    (ht : ∀ e ∈ t, P e.request) (hf : (steady mayFail).Follows w t v) :
    ∃ v', (steady mayFail).Follows w' t v' ∧ R v v' := by
  induction hf generalizing w' with
  | nil => exact ⟨w', .nil w', h⟩
  | cons ha _ ih =>
    obtain ⟨he, hrest⟩ := List.forall_mem_cons.mp ht
    obtain ⟨m', ha', hm⟩ := hR.answered h he ha
    obtain ⟨v', hf', hv⟩ := ih hm hrest
    exact ⟨v', .cons ha' hf', hv⟩

/-- **A program that makes no other requests ends in both worlds in the same way.** -/
theorem run_eq {α : Type} {p : Program Backend α} (hR : AnswersAlike R P) (h : R w w')
    (hp : ∀ e ∈ exchanges p w, P e.request) : (World.run p w').1 = (World.run p w).1 := by
  induction p generalizing w w' with
  | done a => rfl
  | call r next ih =>
    obtain ⟨hr, hrest⟩ := List.forall_mem_cons.mp hp
    obtain ⟨hsame, hrelated⟩ := hR w w' r h hr
    show (World.run (next (World.answer r w').1) (World.answer r w').2).1 = _
    rw [hsame]
    exact ih _ hrelated hrest

end AnswersAlike

/-! ## Worlds that differ in some keys -/

/-- A cached text is of none of some keys. -/
def Besides (owners : UserId × TokenKey → Prop) (text : String) : Prop :=
  ∀ owner, owners owner → text ≠ (CacheKey.tokenValidity owner.1 owner.2).text

/-- **Two worlds differ at the most in what they know of some keys.** -/
structure AlikeBut (owners : UserId × TokenKey → Prop) (w w' : World) : Prop where
  signer : w'.signer = w.signer
  now : w'.now = w.now
  stamps : ∀ user, w'.store.stampOf user = w.store.stampOf user
  records : ∀ owner, ¬owners owner → w'.store.tokens.find? owner = w.store.tokens.find? owner
  seen : ∀ text, Besides owners text → w'.cache.seen w.now text = w.cache.seen w.now text

/-- A request of those that validating makes, and of none of some keys. -/
def Unconcerned (owners : UserId × TokenKey → Prop) : Backend.Request → Prop
  | .verify _ => True
  | .now => True
  | .findStamp _ => True
  | .isTokenLive user key _ => ¬owners (user, key)
  | .cacheGet text => Besides owners text
  | .cacheSet text _ _ => Besides owners text
  | .cacheDelete text => Besides owners text
  | _ => False

/-- A request that removes something of some keys. -/
def Removes (owners : UserId × TokenKey → Prop) : Backend.Request → Prop
  | .deleteToken user key => owners (user, key)
  | .cacheDelete text => ∃ owner, owners owner ∧
    text = (CacheKey.tokenValidity owner.1 owner.2).text
  | _ => False

namespace AlikeBut
variable {owners : UserId × TokenKey → Prop} {u v w w' : World} {r : Backend.Request}
  {mayFail : Backend.Request → Bool}

theorem refl (w : World) : AlikeBut owners w w :=
  ⟨rfl, rfl, fun _ => rfl, fun _ _ => rfl, fun _ _ => rfl⟩

theorem symm (h : AlikeBut owners w w') : AlikeBut owners w' w where
  signer := h.signer.symm
  now := h.now.symm
  stamps user := (h.stamps user).symm
  records owner howner := (h.records owner howner).symm
  seen text htext := by
    rw [h.now]
    exact (h.seen text htext).symm

theorem trans (h : AlikeBut owners u v) (h' : AlikeBut owners v w) : AlikeBut owners u w where
  signer := h'.signer.trans h.signer
  now := h'.now.trans h.now
  stamps user := (h'.stamps user).trans (h.stamps user)
  records owner howner := (h'.records owner howner).trans (h.records owner howner)
  seen text htext := by
    have hseen := h'.seen text htext
    rw [h.now] at hseen
    exact hseen.trans (h.seen text htext)

/-- Changes of the caches that show the same keep worlds alike. -/
theorem withCache (h : AlikeBut owners w w') {c c' : MemoryCache}
    (hseen : ∀ text, Besides owners text → c'.seen w.now text = c.seen w.now text) :
    AlikeBut owners { w with cache := c } { w' with cache := c' } :=
  ⟨h.signer, h.now, h.stamps, h.records, hseen⟩

theorem answer_removes (hr : Removes owners r) : AlikeBut owners w (World.answer r w).2 := by
  cases r with
  | deleteToken user key =>
    refine ⟨rfl, rfl, fun _ => rfl, fun owner howner => ?_, fun _ _ => rfl⟩
    show (w.store.tokens.erase (user, key)).find? owner = w.store.tokens.find? owner
    have hne : owner ≠ (user, key) := fun heq => howner (heq ▸ hr)
    rw [Table.find?_erase, if_neg hne]
  | cacheDelete text =>
    obtain ⟨owner, howner, rfl⟩ := hr
    refine (refl w).withCache (c := w.cache) fun other hother => ?_
    rw [MemoryCache.seen_delete, if_neg (hother owner howner)]
  | _ => exact False.elim hr

/-- **A removal of what is of some keys is not seen elsewhere**, whether it is done or fails. -/
theorem of_removes (hr : Removes owners r) {a : Backend.Answer r}
    (ha : Answered mayFail r w a w') : AlikeBut owners w w' := by
  cases ha with
  | served => exact answer_removes hr
  | refused _ _ => exact refl w
  | unconfirmed _ _ => exact answer_removes hr

end AlikeBut

/-- **Worlds that are alike answer alike what is not of the keys, and stay alike.** -/
theorem answersAlike_alikeBut {owners : UserId × TokenKey → Prop} :
    AnswersAlike (AlikeBut owners) (Unconcerned owners) := by
  intro w w' r h hr
  cases r with
  | verify token =>
    refine ⟨?_, h⟩
    show w'.signer.verify w'.now token = w.signer.verify w.now token
    rw [h.signer, h.now]
  | now => exact ⟨h.now, h⟩
  | findStamp user => exact ⟨congrArg Except.ok (h.stamps user), h⟩
  | isTokenLive user key now =>
    refine ⟨congrArg Except.ok ?_, h⟩
    show w'.store.isTokenLive user key now = w.store.isTokenLive user key now
    rw [Store.isTokenLive, Store.isTokenLive, h.records _ hr]
  | cacheGet text =>
    constructor
    · show Except.ok (w'.cache.seen w'.now text) = Except.ok (w.cache.seen w.now text)
      rw [h.now, h.seen text hr]
    · refine h.withCache fun other hother => ?_
      rw [h.now]
      exact MemoryCache.seen_get_congr (Instant.lt_irrefl _) (h.seen other hother) text
  | cacheSet text value seconds =>
    refine ⟨rfl, h.withCache fun other hother => ?_⟩
    rw [h.now]
    exact MemoryCache.seen_set_congr (Instant.lt_irrefl _) (h.seen other hother) text value seconds
  | cacheDelete text =>
    exact ⟨rfl, h.withCache fun other hother =>
      MemoryCache.seen_delete_congr (h.seen other hother) text⟩
  | _ => exact False.elim hr

end AccessControl.World
