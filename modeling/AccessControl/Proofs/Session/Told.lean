import AccessControl.Proofs.Program.Learning
import AccessControl.Proofs.Session.Order
import AccessControl.Proofs.Session.SignOut

/-! # What a validation makes of what it is told

Once a token was verified, its validation depends on what is told of two things: of the stamp of the
user, and of the key of the token.  An answer hides a stamp if neither the store nor the cache names
it in this answer, and hides a key if neither says that it is live.

* If all answers hide the stamp of the token, it is refused for the stamp.
* If the store names the stamp, the check of the stamp is passed, whatever the cache answers.
* If all answers hide the key, it is refused for the key; and if the store says that it is live, the
  check of the key is passed, again whatever the cache answers.

As long as a stamp is dead all answers hide it, and as long as a key is gone all answers hide it.
Services that keep to the order cache only what they have just found, and so leave both as they
are.
-/
namespace AccessControl.Session
open World Outside Program
variable {d : Deployment} {user : UserId} {key : TokenKey} {stamp : SecurityStamp}
  {claims : Token.Claims} {kind : Token.Kind} {w w' : World} {e : Exchange Backend} {t : Log}
  {mayFail : Backend.Request → Bool} {catalog : Catalog} {expiry : Instant}

/-! ## Answers about stamps and keys -/

/-- **An answer does not name a stamp** as that of a user, neither from the store nor from the
cache. -/
def HidesStamp (user : UserId) (stamp : SecurityStamp) : Exchange Backend → Prop
  | ⟨.findStamp owner, .ok found⟩ => owner = user → found ≠ some stamp
  | ⟨.cacheGet text, .ok (some value)⟩ => text = (CacheKey.securityStamp user).text →
    ∀ item : Cached.Stamp, Json.decode? value = some item → item.stamp ≠ stamp
  | _ => True

/-- The store names a stamp, if it is asked for that of a user. -/
def ShowsStamp (user : UserId) (stamp : SecurityStamp) : Exchange Backend → Prop
  | ⟨.findStamp owner, .ok found⟩ => owner = user → found = some stamp
  | _ => True

/-- **An answer does not say that a key of a user is live**, neither from the store nor from the
cache. -/
def HidesKey (user : UserId) (key : TokenKey) : Exchange Backend → Prop
  | ⟨.isTokenLive owner other _, .ok live⟩ => owner = user → other = key → live = false
  | ⟨.cacheGet text, .ok (some value)⟩ => text = (CacheKey.tokenValidity user key).text →
    ∀ item : Cached.LiveToken, Json.decode? value ≠ some item
  | _ => True

/-- The clock shows an instant before an expiry, and the store says that a key of a user is live,
if it is asked for such an instant. -/
def ShowsKey (user : UserId) (key : TokenKey) (expiry : Instant) : Exchange Backend → Prop
  | ⟨.now, now⟩ => now < expiry
  | ⟨.isTokenLive owner other now, .ok live⟩ => owner = user → other = key → now < expiry →
    live = true
  | _ => True

/-- A dead stamp is hidden. -/
theorem hidesStamp_of_answers (hw : Dead user stamp w)
    (h : (unreliable mayFail).Answers e.request w e.answer w') : HidesStamp user stamp e := by
  obtain ⟨r, a⟩ := e
  cases r with
  | findStamp owner =>
    cases a with
    | error failure => trivial
    | ok found =>
      rintro rfl
      rw [(findStamp_answers h).2 found rfl]
      exact hw.stored
  | cacheGet text =>
    rcases a with failure | (_ | value)
    · trivial
    · trivial
    · rintro rfl item hitem
      rcases held_of_cacheGet h with hheld | hspoilt
      · exact hw.cached value item hheld hitem
      · exact absurd (hitem.symm.trans hspoilt) (by simp)
  | _ => trivial

/-- A key that is gone is hidden. -/
theorem hidesKey_of_answers (hw : Gone user key w)
    (h : (unreliable mayFail).Answers e.request w e.answer w') : HidesKey user key e := by
  obtain ⟨r, a⟩ := e
  cases r with
  | isTokenLive owner other now =>
    cases a with
    | error failure => trivial
    | ok live =>
      rintro rfl rfl
      rw [(isTokenLive_answers h).2 live rfl]
      exact hw.not_live now
  | cacheGet text =>
    rcases a with failure | (_ | value)
    · trivial
    · trivial
    · rintro rfl item hitem
      rcases held_of_cacheGet h with hheld | hspoilt
      · exact hw.cached value item hheld hitem
      · exact absurd (hitem.symm.trans hspoilt) (by simp)
  | _ => trivial

/-- A stored stamp is named. -/
theorem showsStamp_of_answers (hw : w.store.stampOf user = some stamp)
    (h : (unreliable mayFail).Answers e.request w e.answer w') : ShowsStamp user stamp e := by
  obtain ⟨r, a⟩ := e
  cases r with
  | findStamp owner =>
    cases a with
    | error failure => trivial
    | ok found =>
      rintro rfl
      rw [(findStamp_answers h).2 found rfl, hw]
  | _ => trivial

/-- A key is said to be live before the expiry of its record. -/
theorem showsKey_of_answers (hw : w.store.tokens.find? (user, key) = some expiry)
    (h : (unreliable mayFail).Answers e.request w e.answer w') (hnow : w'.now < expiry) :
    ShowsKey user key expiry e := by
  obtain ⟨r, a⟩ := e
  cases r with
  | now =>
    obtain ⟨-, rfl⟩ := now_answers h
    exact hnow
  | isTokenLive owner other now =>
    cases a with
    | error failure => trivial
    | ok live =>
      rintro rfl rfl hearly
      rw [(isTokenLive_answers h).2 live rfl, Store.isTokenLive, hw]
      exact decide_eq_true hearly
  | _ => trivial

/-- What was verified in the course of exchanges is what the token says at some instant. -/
theorem exists_verified {token : String} {c : Token.Claims}
    (hf : (unreliable mayFail).Follows w t w') (h : ⟨.verify token, .ok c⟩ ∈ t) :
    ∃ now, w.signer.verify now token = .ok c := by
  obtain ⟨m, m', hsigner, hanswers⟩ := exists_answers_of_mem hf h
  have hverdict := (verify_answers hanswers).2
  rw [hsigner] at hverdict
  exact ⟨m'.now, hverdict.symm⟩

/-- **How a validation ends**, given what came of the checks of the stamp and of the key, and how
the verification of the token has ended. -/
def outcome (settings : Token.Settings) (kind : Token.Kind) (user : UserId)
    (checked : Except Rejection Unit) :
    Except Rejection Token.Claims → Except Rejection Token.Validated
  | .error rejection => .error rejection
  | .ok claims => do
    checkClaims settings claims kind
    checked
    return ⟨user, claims⟩

/-- A token that does not pass the checks of its stamp and its key is refused, for this or for what
was found before. -/
theorem exists_outcome_error (settings : Token.Settings) (kind : Token.Kind) (user : UserId)
    (rejection : Rejection) (verdict : Except Rejection Token.Claims) :
    ∃ rejection', outcome settings kind user (.error rejection) verdict = .error rejection' := by
  cases verdict with
  | error rejection' => exact ⟨rejection', rfl⟩
  | ok claims =>
    rw [outcome]
    cases checkClaims settings claims kind with
    | error rejection' => exact ⟨rejection', rfl⟩
    | ok _ => exact ⟨rejection, rfl⟩

/-- A token that does not pass the check of its stamp is refused for that, if for nothing else. -/
theorem outcome_refused {settings : Token.Settings} {verdict : Except Rejection Token.Claims} :
    outcome settings kind user (.error .invalidSecurityStamp) verdict =
      .error (refusal settings kind verdict) := by
  cases verdict with
  | error rejection => rfl
  | ok claims =>
    rw [outcome, refusal]
    cases checkClaims settings claims kind <;> rfl

/-! ## The checks -/

section Checks
variable {P : Exchange Backend → Prop} {fails : Failure → Prop}

/-- The failures of stores among some answers are of a kind. -/
def Admits (fails : Failure → Prop) (P : Exchange Backend → Prop) : Prop :=
  ∀ e failure, P e → e.request.isCaching = false → Trial.failed failure e.request = some e.answer →
    fails failure

variable (hfails : Admits fails P)
include hfails

/-- **A token whose stamp is hidden does not pass the check of its stamp.** -/
theorem learns_checkStamp_of_hidden (hP : ∀ e, P e → HidesStamp user stamp e)
    (hstamp : claims.stamp = .ok stamp) :
    Learns fails P (checkStamp d user claims) (.error (.rejected .invalidSecurityStamp)) := by
  have hread : (giving P).Ensures (Cached.stamp user) () fun cached? _ =>
      cached?.map (·.stamp) ≠ some stamp := by
    apply ensures_giving_read
    · exact nofun
    · intro value item hshown hitem heq
      exact hP _ hshown rfl item hitem (Option.some.inj heq)
  rw [checkStamp, hstamp, refusing, pure_bind]
  apply Learns.of_read hread
  intro cached? hcached
  rw [if_neg hcached, Learns, ensures_run_bind]
  refine ensures_giving (I := Backend) (r := .findStamp user) fun found hfound => ?_
  cases found with
  | error failure => exact .inr ⟨failure, rfl, hfails _ failure hfound rfl rfl⟩
  | ok current? =>
    have hother : current? ≠ some stamp := hP _ hfound rfl
    dsimp only
    rw [if_neg hother]
    exact learns_throw _

/-- **A token whose stamp the store names passes the check of its stamp**, whatever is cached. -/
theorem learns_checkStamp_of_shown (hP : ∀ e, P e → ShowsStamp user stamp e)
    (hstamp : claims.stamp = .ok stamp) :
    Learns fails P (checkStamp d user claims) (.ok ()) := by
  rw [checkStamp, hstamp, refusing, pure_bind]
  apply Learns.of_read (Q := fun _ => True) fun _ _ _ _ _ => trivial
  intro cached? _
  split
  · exact learns_pure ()
  · rw [Learns, ensures_run_bind]
    refine ensures_giving (I := Backend) (r := .findStamp user) fun found hfound => ?_
    cases found with
    | error failure => exact .inr ⟨failure, rfl, hfails _ failure hfound rfl rfl⟩
    | ok current? =>
      have hsame : current? = some stamp := hP _ hfound rfl
      dsimp only
      rw [if_pos hsame]
      exact learns_lift _

/-- **A token whose key is hidden does not pass the check of its key.** -/
theorem learns_checkKey_of_hidden (hP : ∀ e, P e → HidesKey user key e)
    (hkey : claims.key = .ok key) :
    Learns fails P (checkKey d user claims) (.error (.rejected .invalidTokenKey)) := by
  have hread : (giving P).Ensures (Cached.isLive user key) () fun cached _ => cached = false := by
    rw [Cached.isLive, ensures_bind]
    refine (ensures_giving_read (Q := (· = none)) (.tokenValidity user key) rfl ?_).mono ?_
    · intro value item hshown hitem
      exact absurd hitem (hP _ hshown rfl item)
    · rintro _ _ rfl
      exact ensures_pure.mpr rfl
  rw [checkKey, hkey, refusing, pure_bind]
  apply Learns.of_read hread
  rintro _ rfl
  rw [if_neg Bool.false_ne_true]
  apply Learns.of_read (Q := fun _ => True) fun _ _ _ _ _ => trivial
  intro now _
  rw [Learns, ensures_run_bind]
  refine ensures_giving (I := Backend) (r := .isTokenLive user key now) fun found hfound => ?_
  cases found with
  | error failure => exact .inr ⟨failure, rfl, hfails _ failure hfound rfl rfl⟩
  | ok live =>
    obtain rfl : live = false := hP _ hfound rfl rfl
    dsimp only
    rw [if_neg Bool.false_ne_true]
    exact learns_throw _

/-- **A token whose key the store says to be live passes the check of its key**, whatever is
cached. -/
theorem learns_checkKey_of_shown (hP : ∀ e, P e → ShowsKey user key expiry e)
    (hkey : claims.key = .ok key) : Learns fails P (checkKey d user claims) (.ok ()) := by
  rw [checkKey, hkey, refusing, pure_bind]
  apply Learns.of_read (Q := fun _ => True) fun _ _ _ _ _ => trivial
  intro cached _
  split
  · exact learns_pure ()
  · have hnow : (giving P).Ensures Backend.now () fun now _ => now < expiry :=
      ensures_giving (I := Backend) (r := .now) fun _ h => hP _ h
    apply Learns.of_read hnow
    intro now hearly
    rw [Learns, ensures_run_bind]
    refine ensures_giving (I := Backend) (r := .isTokenLive user key now) fun found hfound => ?_
    cases found with
    | error failure => exact .inr ⟨failure, rfl, hfails _ failure hfound rfl rfl⟩
    | ok live =>
      obtain rfl : live = true := hP _ hfound rfl rfl hearly
      dsimp only
      rw [if_pos rfl]
      exact learns_lift _

/-! ## Validations -/

omit hfails in
/-- **From what came of the checks of the stamp and of the key a validation ends as said**, once the
token was verified. -/
theorem learns_validateVerified {checked : Except Rejection Unit}
    {verdict : Except Rejection Token.Claims} (huser : claims.userId = .ok user)
    (hverdict : ∀ c, verdict = .ok c → c = claims)
    (hchecked : Learns fails P (do checkStamp d user claims; checkKey d user claims)
      (checked.mapError .rejected)) :
    Learns fails P (validateVerified d kind verdict)
      ((outcome d.tokens kind user checked verdict).mapError .rejected) := by
  cases verdict with
  | error rejection => exact learns_throw _
  | ok c =>
    obtain rfl := hverdict c rfl
    rw [validateVerified, outcome]
    cases checkClaims d.tokens c kind with
    | error rejection => exact learns_throw _
    | ok _ =>
      rw [huser, refusing, refusing, pure_bind, pure_bind, ← LawfulMonad.bind_assoc]
      cases checked with
      | error rejection => exact hchecked.bind_error _
      | ok _ => exact hchecked.bind (learns_pure _)

end Checks

/-- Whoever fails as a store did is admitted among what was exchanged. -/
theorem admits_storeFailed (t : Log) : Admits (StoreFailed · t) (· ∈ t) :=
  fun e _ he hcaching hfailed => ⟨e, he, hcaching, hfailed⟩

/-- **A validation asks for the verification of the token, and then ends as said**, or with a
failure that is expected. -/
theorem concludes_validate {fails : Failure → Prop} {checked : Except Rejection Unit}
    {token : String} {r : Except Failure Token.Validated}
    (ht : (validate d token kind).run.Transcript t r)
    (hverified : ∀ c, ⟨.verify token, .ok c⟩ ∈ t → c = claims) (huser : claims.userId = .ok user)
    (hchecked : Learns fails (· ∈ t) (do checkStamp d user claims; checkKey d user claims)
      (checked.mapError .rejected)) :
    ∃ verdict rest, t = ⟨.verify token, verdict⟩ :: rest ∧
      Concludes fails ((outcome d.tokens kind user checked verdict).mapError .rejected) r := by
  rw [validate_run_eq] at ht
  obtain ⟨verdict, rest, rfl, hrest⟩ := transcript_call_iff.mp ht
  refine ⟨verdict, rest, rfl, ?_⟩
  have hlearns : Learns fails (· ∈ (⟨.verify token, verdict⟩ :: rest : Log))
      (validateVerified d kind verdict) _ :=
    learns_validateVerified huser (fun c hc => hverified c (hc ▸ List.mem_cons_self)) hchecked
  exact Ensures.of_giving hlearns hrest fun e he => List.mem_cons_of_mem _ he

/-- **A token whose key is hidden is not validated**, whatever is told of its stamp. -/
theorem fails_validate_of_hidden {token : String} {r : Except Failure Token.Validated}
    (ht : (validate d token kind).run.Transcript t r)
    (hverified : ∀ c, ⟨.verify token, .ok c⟩ ∈ t → c = claims) (huser : claims.userId = .ok user)
    (hkey : claims.key = .ok key) (hhidden : ∀ e ∈ t, HidesKey user key e) :
    ∃ failure, r = .error failure ∧
      ((∃ rejection, failure = .rejected rejection) ∨ StoreFailed failure t) := by
  have hrefused : Learns (fun _ => True) (· ∈ t) (checkKey d user claims)
      (.error (.rejected .invalidTokenKey)) :=
    learns_checkKey_of_hidden (fun _ _ _ _ _ => trivial) hhidden hkey
  have hchecked : Learns (fun _ => True) (· ∈ t)
      (do checkStamp d user claims; checkKey d user claims)
      (Except.mapError .rejected (.error .invalidTokenKey)) :=
    (learns_unit (checkStamp d user claims)).bind hrefused
  obtain ⟨verdict, _, -, hends⟩ := concludes_validate ht hverified huser hchecked
  obtain ⟨rejection, hrejected⟩ :=
    exists_outcome_error d.tokens kind user .invalidTokenKey verdict
  rw [hrejected] at hends
  obtain ⟨failure, rfl⟩ := hends.exists_error
  exact ⟨failure, rfl, failsByStore_validate t failure ht⟩

/-! ## As long as a stamp is dead or a key is gone -/

section Throughout
variable {pending : CacheKey → Prop} (hf : (unreliable mayFail).Follows w t w')
  (horder : OrderlyBut catalog pending t)
include hf horder

/-- **What is exchanged in order leaves a stamp dead**, unless it is written again. -/
theorem Dead.of_orderly (hw : Dead user stamp w)
    (hwrites : ∀ e ∈ t, e.request ≠ .updateStamp user stamp) : Dead user stamp w' := by
  have hstep : ∀ e ∈ t, ∀ m m', (unreliable mayFail).Answers e.request m e.answer m' →
      m.store.stampOf user ≠ some stamp → m'.store.stampOf user ≠ some stamp := by
    intro e he m m' ha
    refine preserved_of_answers (P := fun v => v.store.stampOf user ≠ some stamp)
      (fun hv hdrifts => hdrifts.store ▸ hv) (fun hv hstored => ?_) ha
    rcases stampOf_answer_eq_some hstored with hold | hwrite
    · exact hv hold
    · exact hwrites e he hwrite
  refine ⟨hf.invariant hstep hw.stored, fun value item hheld hitem => ?_⟩
  rcases holds_of_follows hf hheld with hold | hspoilt | ⟨⟨_, a⟩, he, seconds, rfl⟩
  · exact hw.cached value item hold hitem
  · exact absurd (hitem.symm.trans hspoilt) (by simp)
  · -- The stamp that is cached was found just before, and a dead one is not found.
    obtain ⟨before, after, rfl⟩ := List.append_of_mem he
    obtain ⟨rest, look, more, rfl, hderived⟩ := horder.filled _ _ _ _ _ _ rfl
    cases hderived with
    | securityStamp _ found =>
      obtain rfl := Json.eq_of_decode?_write hitem
      rintro rfl
      obtain ⟨m, m', hstored, hlook⟩ := hf.exists_of_mem hstep hw.stored
        (e := ⟨.findStamp user, .ok (some found)⟩) (by simp)
      exact hstored ((findStamp_answers hlook).2 _ rfl).symm

/-- As long as a stamp is dead it is hidden. -/
theorem Dead.hides (hw : Dead user stamp w)
    (hwrites : ∀ e ∈ t, e.request ≠ .updateStamp user stamp) :
    ∀ e ∈ t, HidesStamp user stamp e := by
  intro e he
  obtain ⟨before, after, m, m', rfl, hbefore, hanswers, -⟩ := hf.cut he
  exact hidesStamp_of_answers (hw.of_orderly hbefore horder.of_append fun e he =>
    hwrites e (List.mem_append_left _ he)) hanswers

/-- **What is exchanged in order leaves a key gone**, unless a record of it is stored again. -/
theorem Gone.of_orderly (hw : Gone user key w)
    (hcreates : ∀ e ∈ t, ∀ record, e.request = .createToken record →
      (record.userId, record.key) ≠ (user, key)) : Gone user key w' := by
  have hstep : ∀ e ∈ t, ∀ m m', (unreliable mayFail).Answers e.request m e.answer m' →
      m.store.tokens.find? (user, key) = none → m'.store.tokens.find? (user, key) = none :=
    fun e he _ _ ha => unrecorded_of_answers (hcreates e he) ha
  refine ⟨hf.invariant hstep hw.stored, fun value item hheld hitem => ?_⟩
  rcases holds_of_follows hf hheld with hold | hspoilt | ⟨⟨_, a⟩, he, seconds, rfl⟩
  · exact hw.cached value item hold hitem
  · exact absurd (hitem.symm.trans hspoilt) (by simp)
  · -- The key was cached after its record was found or stored.
    obtain ⟨before, after, rfl⟩ := List.append_of_mem he
    obtain ⟨rest, look, more, rfl, hderived⟩ := horder.filled _ _ _ _ _ _ rfl
    cases hderived with
    | liveToken _ _ now =>
      obtain ⟨m, m', hnone, hlook⟩ := hf.exists_of_mem hstep hw.stored
        (e := ⟨.isTokenLive user key now, .ok true⟩) (by simp)
      have hlive := (isTokenLive_answers hlook).2 true rfl
      rw [Store.isTokenLive, hnone] at hlive
      cases hlive
    | newToken _ _ expiresAt =>
      exact hcreates ⟨.createToken ⟨user, key, expiresAt⟩, .ok ()⟩ (by simp) _ rfl rfl

/-- As long as a key is gone it is hidden. -/
theorem Gone.hides (hw : Gone user key w)
    (hcreates : ∀ e ∈ t, ∀ record, e.request = .createToken record →
      (record.userId, record.key) ≠ (user, key)) : ∀ e ∈ t, HidesKey user key e := by
  intro e he
  obtain ⟨before, after, m, m', rfl, hbefore, hanswers, -⟩ := hf.cut he
  exact hidesKey_of_answers (hw.of_orderly hbefore horder.of_append fun e he =>
    hcreates e (List.mem_append_left _ he)) hanswers

end Throughout
end AccessControl.Session
