import AccessControl.Proofs.World.Alike
import AccessControl.Proofs.World.Exact

/-! # Users who stand by

Sessions of a user depend on the user's stamp and token records, and on what is cached of these;
decisions on the user depend on the user's roles and rows, on roles, and on what is cached of these
(`CacheKey.OfSessions`, `CacheKey.OfDecisions`).  A request passes a user by if it writes, caches
and removes nothing that the sessions of the user depend on, and writes nothing that decisions on
the user depend on (`Backend.Request.PassesBy`).

Before and after such a request a validation for the user cannot tell the worlds apart
(`World.AlikeFor`), at that instant and later; and it leaves the data of every item that decisions
on the user are made from as it is.
-/
namespace AccessControl

/-- What is cached of the sessions of a user. -/
def CacheKey.OfSessions (user : UserId) : CacheKey → Prop
  | .securityStamp owner => owner = user
  | .tokenValidity owner _ => owner = user
  | _ => False

namespace Backend.Request

/-- A text is not the key of anything that is cached of the sessions of a user. -/
def OutsideSessions (user : UserId) (text : String) : Prop :=
  ∀ key : CacheKey, key.OfSessions user → key.text ≠ text

/-- **A request passes a user by.** -/
def PassesBy (user : UserId) : Backend.Request → Prop
  | .createRole _ => False
  | .updateRole _ _ => False
  | .replaceRoleGrants _ _ => False
  | .deleteRole _ => False
  | .replaceUserGrants owner _ => owner ≠ user
  | .replaceUserRoles owner _ => owner ≠ user
  | .createToken record => record.userId ≠ user
  | .deleteToken owner _ => owner ≠ user
  | .deleteTokens owner => owner ≠ user
  | .updateStamp owner _ => owner ≠ user
  | .cacheSet text _ _ => OutsideSessions user text
  | .cacheDelete text => OutsideSessions user text
  | _ => True

/-- A request that a validation for a user makes. -/
def OfSessions (user : UserId) : Backend.Request → Prop
  | .verify _ => True
  | .now => True
  | .findStamp owner => owner = user
  | .isTokenLive owner _ _ => owner = user
  | .cacheGet text => ∃ key : CacheKey, key.OfSessions user ∧ key.text = text
  | .cacheSet text _ _ => ∃ key : CacheKey, key.OfSessions user ∧ key.text = text
  | .cacheDelete text => ∃ key : CacheKey, key.OfSessions user ∧ key.text = text
  | _ => False

variable {user : UserId} {key : CacheKey}

/-- An item of another kind, or of another user, is outside the sessions of a user. -/
theorem outsideSessions (h : ¬key.OfSessions user) : OutsideSessions user key.text := by
  intro other hother htext
  obtain rfl := CacheKey.text_injective htext
  exact h hother

/-- **What passes a user by leaves the data of decisions on the user as it is.** -/
theorem PassesBy.not_unsettles {e : Exchange Backend} (h : e.request.PassesBy user)
    (hkey : key.OfDecisions user) : ¬Unsettles key e := by
  intro hunsettles
  obtain ⟨r, a⟩ := e
  cases r with
  | createRole role => exact h
  | updateRole role change => exact h
  | replaceRoleGrants role grants => exact h
  | deleteRole role => exact h
  | replaceUserGrants owner grants =>
    cases a with
    | ok _ =>
      obtain rfl : key = .userPermissions owner := hunsettles
      exact h hkey
    | error failure => exact hunsettles
  | replaceUserRoles owner roles =>
    cases a with
    | ok _ =>
      obtain rfl : key = .userRoles owner := hunsettles
      exact h hkey
    | error failure => exact hunsettles
  | _ => exact hunsettles

end Backend.Request

namespace World
open Outside Program Backend.Request
variable {user : UserId} {u v w w' : World} {r : Backend.Request}
  {mayFail : Backend.Request → Bool}

/-- **A world whose clock is set to an instant.**  If the clock is set back, what has lapsed from
the cache stays so. -/
def atInstant (w : World) (now : Instant) : World :=
  { w with now, cache := if now < w.now then w.cache.sweep w.now else w.cache }

/-- **Two worlds are alike for the sessions of a user**, at the instant that it is and later. -/
structure AlikeFor (user : UserId) (w w' : World) : Prop where
  signer : w'.signer = w.signer
  now : w'.now = w.now
  stamp : w'.store.stampOf user = w.store.stampOf user
  records : ∀ key, w'.store.tokens.find? (user, key) = w.store.tokens.find? (user, key)
  seen : ∀ key : CacheKey, key.OfSessions user → ∀ later, ¬later < w.now →
    w'.cache.seen later key.text = w.cache.seen later key.text

namespace AlikeFor

theorem refl (w : World) : AlikeFor user w w :=
  ⟨rfl, rfl, rfl, fun _ => rfl, fun _ _ _ _ => rfl⟩

theorem symm (h : AlikeFor user w w') : AlikeFor user w' w where
  signer := h.signer.symm
  now := h.now.symm
  stamp := h.stamp.symm
  records key := (h.records key).symm
  seen key hkey later hlater := by
    rw [h.now] at hlater
    exact (h.seen key hkey later hlater).symm

theorem trans (h : AlikeFor user u v) (h' : AlikeFor user v w) : AlikeFor user u w where
  signer := h'.signer.trans h.signer
  now := h'.now.trans h.now
  stamp := h'.stamp.trans h.stamp
  records key := (h'.records key).trans (h.records key)
  seen key hkey later hlater := by
    have hseen := h'.seen key hkey later
    rw [h.now] at hseen
    exact (hseen hlater).trans (h.seen key hkey later hlater)

/-- **Worlds that are alike are so at any instant.** -/
theorem atInstant (h : AlikeFor user w w') (now : Instant) :
    AlikeFor user (w.atInstant now) (w'.atInstant now) where
  signer := h.signer
  now := rfl
  stamp := h.stamp
  records := h.records
  seen key hkey later hlater := by
    change ¬later < now at hlater
    rw [World.atInstant, World.atInstant, h.now]
    by_cases hback : now < w.now
    · rw [if_pos hback, if_pos hback]
      show (w'.cache.sweep w.now).seen later key.text = (w.cache.sweep w.now).seen later key.text
      by_cases hlater' : later < w.now
      · rw [MemoryCache.seen_sweep_of_lt hlater', MemoryCache.seen_sweep_of_lt hlater']
        exact h.seen key hkey w.now (Instant.lt_irrefl _)
      · rw [MemoryCache.seen_sweep hlater', MemoryCache.seen_sweep hlater']
        exact h.seen key hkey later hlater'
    · rw [if_neg hback, if_neg hback]
      refine h.seen key hkey later ?_
      rw [Instant.lt_def] at hback hlater ⊢
      omega

/-- Changes of the caches that show the same keep worlds alike. -/
theorem withCache (h : AlikeFor user w w') {c c' : MemoryCache}
    (hseen : ∀ key : CacheKey, key.OfSessions user → ∀ later, ¬later < w.now →
      c'.seen later key.text = c.seen later key.text) :
    AlikeFor user { w with cache := c } { w' with cache := c' } :=
  ⟨h.signer, h.now, h.stamp, h.records, hseen⟩

end AlikeFor

/-! ## Requests that pass a user by -/

/-- What passes a user by leaves the token records of the user as they are. -/
theorem records_of_passesBy (hr : r.PassesBy user) (key : TokenKey) :
    (World.answer r w).2.store.tokens.find? (user, key) = w.store.tokens.find? (user, key) := by
  apply find?_tokens_answer
  · rintro record rfl howner
    exact hr (Prod.mk.inj howner).1
  · rintro rfl
    exact hr rfl
  · rintro rfl
    exact hr rfl

/-- What passes a user by does not change what the cache shows of the sessions of the user. -/
theorem seen_of_passesBy (hr : r.PassesBy user) {key : CacheKey} (hkey : key.OfSessions user)
    {later : Instant} (hlater : ¬later < w.now) :
    (World.answer r w).2.cache.seen later key.text = w.cache.seen later key.text := by
  cases r with
  | cacheGet text => exact MemoryCache.seen_get hlater
  | cacheSet text value seconds =>
    show (w.cache.set w.now text value seconds).seen later key.text = _
    by_cases hseconds : seconds = 0
    · rw [hseconds, MemoryCache.set_zero]
    · rw [MemoryCache.seen_set hseconds hlater, if_neg (hr key hkey)]
  | cacheDelete text =>
    show (w.cache.delete text).seen later key.text = _
    rw [MemoryCache.seen_delete, if_neg (hr key hkey)]
  | _ => first | rfl | exact congrArg (MemoryCache.seen · later key.text) (cache_writeGiving _)

theorem alikeFor_answer (hr : r.PassesBy user) : AlikeFor user w (World.answer r w).2 where
  signer := signer_answer
  now := now_answer
  stamp := by
    apply stampOf_answer
    rintro stamp rfl
    exact hr rfl
  records := records_of_passesBy hr
  seen _ hkey _ hlater := seen_of_passesBy hr hkey hlater

/-- **The worlds before and after what passes a user by are alike for the user**, whether it is done
or fails. -/
theorem AlikeFor.of_passesBy (hr : r.PassesBy user) {a : Backend.Answer r}
    (ha : Answered mayFail r w a w') : AlikeFor user w w' := by
  cases ha with
  | served => exact alikeFor_answer hr
  | refused _ _ => exact refl w
  | unconfirmed _ _ => exact alikeFor_answer hr

/-- **So are they before and after any exchanges that pass the user by.** -/
theorem alikeFor_of_follows {t : List (Exchange Backend)} (hf : (steady mayFail).Follows w t w')
    (ht : ∀ e ∈ t, e.request.PassesBy user) : AlikeFor user w w' :=
  hf.invariant (P := AlikeFor user w) (fun e he _ _ ha hm => hm.trans (.of_passesBy (ht e he) ha))
    (.refl w)

/-- **What decisions on the user are made from stays valid**, if what is cached is in order. -/
theorem Coherent.of_passesBy {catalog : Catalog} {pending : CacheKey → Prop}
    {t : List (Exchange Backend)} (hw : w.Coherent catalog)
    (hf : (unreliable mayFail).Follows w t w') (horder : OrderlyBut catalog pending t)
    (ht : ∀ e ∈ t, e.request.PassesBy user) :
    w'.CoherentBut catalog fun key => ¬key.OfDecisions user := by
  intro key value hkey hheld
  have hof : key.OfDecisions user := Classical.not_not.mp hkey
  refine valid_of_follows hf horder (fun e he => (ht e he).not_unsettles hof) ?_ hheld
  exact fun value hheld => hw key value id hheld

/-! ## Requests for a user -/

/-- **Worlds that are alike for a user answer a validation for the user alike.** -/
theorem answersAlike_alikeFor :
    AnswersAlike (AlikeFor user) (Backend.Request.OfSessions user) := by
  intro w w' r h hr
  cases r with
  | verify token =>
    refine ⟨?_, h⟩
    show w'.signer.verify w'.now token = w.signer.verify w.now token
    rw [h.signer, h.now]
  | now => exact ⟨h.now, h⟩
  | findStamp owner =>
    obtain rfl : owner = user := hr
    exact ⟨congrArg Except.ok h.stamp, h⟩
  | isTokenLive owner key now =>
    obtain rfl : owner = user := hr
    refine ⟨congrArg Except.ok ?_, h⟩
    show w'.store.isTokenLive owner key now = w.store.isTokenLive owner key now
    rw [Store.isTokenLive, Store.isTokenLive, h.records key]
  | cacheGet text =>
    obtain ⟨key, hkey, rfl⟩ := hr
    constructor
    · show Except.ok (w'.cache.seen w'.now key.text) = Except.ok (w.cache.seen w.now key.text)
      rw [h.now, h.seen key hkey _ (Instant.lt_irrefl _)]
    · refine h.withCache fun other hother later hlater => ?_
      rw [h.now]
      exact MemoryCache.seen_get_congr hlater (h.seen other hother later hlater) _
  | cacheSet text value seconds =>
    refine ⟨rfl, h.withCache fun other hother later hlater => ?_⟩
    rw [h.now]
    exact MemoryCache.seen_set_congr hlater (h.seen other hother later hlater) text value seconds
  | cacheDelete text =>
    exact ⟨rfl, h.withCache fun other hother later hlater =>
      MemoryCache.seen_delete_congr (h.seen other hother later hlater) text⟩
  | _ => exact False.elim hr

end World
end AccessControl
