import AccessControl.Proofs.Session.Standing
import AccessControl.Proofs.Session.Told
import AccessControl.Proofs.World.Coherence

/-! # The cache does not decide

Whatever the cache holds after calls one after the other, a token that was issued in their course
is validated as if nothing were ever found in the cache.  What is cached may be out of date: a key
stays cached as live after a rotation has removed its record.  But as long as the record would not
have expired it does not matter (`Stands`):

* a stamp that was replaced is neither found nor cached, so the token is refused for its stamp;
* a stamp that is current is found in the store if the cache does not name it, so it is passed;
* a key whose record is removed by itself is not cached, and one whose record is there is found to
  be live in the store if it is not cached.

So a validation ends as the store alone has it (`standing`).
-/
namespace AccessControl.Session
open World Outside Program
variable {α : Type} {d : Deployment} {user : UserId} {key : TokenKey} {stamp : SecurityStamp}
  {kind : Token.Kind} {claims : Token.Claims} {expiry now : Instant} {w w' : World} {log : Log}
  {issued : Token.Issued} {token : String}

/-! ## Caches that tell something and caches that tell nothing -/

/-- The cache may fail and lose values, but no time passes. -/
abbrev lossyAt (now : Instant) : Outside Backend World := lossy.within (·.now = now)

/-- A read from the cache finds nothing. -/
def IsMiss : Exchange Backend → Prop
  | ⟨.cacheGet _, found⟩ => found = .ok none
  | _ => True

/-- **A service comes to one result, whatever it finds in the cache**: as the cache is, and if every
read from it finds nothing. -/
structure Decides (x : Service α) (w : World) (result : Except Failure α) : Prop where
  cached : (lossyAt w.now).Yields x.run w fun r _ => r = result
  missed : ((lossyAt w.now).only IsMiss).Yields x.run w fun r _ => r = result

theorem drifts_empty (w : World) : Drifts w { w with cache := .empty } := by
  refine ⟨rfl, rfl, rfl, rfl, fun key value hheld => ?_⟩
  have hnone : (MemoryCache.empty : MemoryCache).entries.find? key.text = none :=
    Table.find?_empty _
  rw [Holds, hnone] at hheld
  cases hheld

/-- In an empty cache nothing is found. -/
theorem isMiss_answer_empty {r : Backend.Request} :
    IsMiss ⟨r, (World.answer r { w with cache := .empty }).1⟩ := by
  cases r with
  | cacheGet text => rfl
  | _ => trivial

/-- **A program has a run in which nothing is found in the cache**: every value is lost in time. -/
theorem exists_missed (p : Program Backend α) (hnow : w.now = now) :
    ∃ t a w', p.Transcript t a ∧ ((lossyAt now).only IsMiss).Follows w t w' := by
  induction p generalizing w with
  | done a => exact ⟨[], a, w, .done a, .nil w⟩
  | call r next ih =>
    have hnow' : (World.answer r { w with cache := .empty }).2.now = now := now_answer.trans hnow
    obtain ⟨t, a, w', ht, hf⟩ := ih _ hnow'
    refine ⟨⟨r, (World.answer r { w with cache := .empty }).1⟩ :: t, a, w', .call ht, .cons ?_ hf⟩
    exact ⟨isMiss_answer_empty, hnow', _, drifts_empty w, .served⟩

/-- What comes of every run comes of those in which nothing is found, and there are such runs. -/
theorem decides_of_ensures {x : Service α} {result : Except Failure α}
    (h : (lossyAt w.now).Ensures x.run w fun r _ => r = result) : Decides x w result := by
  obtain ⟨t, r, w', ht, hf⟩ := exists_missed x.run (w := w) rfl
  exact ⟨⟨h, t, r, w', ht, hf.of_only⟩, h.only, t, r, w', ht, hf⟩

/-! ## What a validation is told -/

/-- **What the store says of a token** of a user with a stamp and a key. -/
def standing (user : UserId) (stamp : SecurityStamp) (key : TokenKey) (w : World) :
    Except Rejection Unit :=
  if w.store.stampOf user = some stamp then
    if w.store.isTokenLive user key w.now then .ok () else .error .invalidTokenKey
  else .error .invalidSecurityStamp

section Telling
variable {t : Log} {r : Except Failure Token.Validated}
  (ht : (validate d token kind).run.Transcript t r) (hf : (lossyAt w.now).Follows w t w')
include ht hf

/-- Whatever is asked is answered at the same instant and from the same store. -/
theorem answered_of_validate {e : Exchange Backend} (he : e ∈ t) :
    ∃ m m', m.store = w.store ∧ m'.now = w.now ∧ lossy.Answers e.request m e.answer m' := by
  have hreads := reads_validate token kind t r ht
  obtain ⟨m, m', hstore, hnow, hanswers⟩ := hf.exists_of_mem (P := fun m => m.store = w.store)
    (fun e he m m' ha hm => (store_of_answers (hreads e he) ha.2).trans hm) rfl he
  exact ⟨m, m', hstore, hnow, hanswers⟩

/-- No store fails. -/
theorem admits_of_validate : Admits (fun _ => False) (· ∈ t) := by
  intro e failure he hstore hfailed
  obtain ⟨m, m', -, -, hanswers⟩ := answered_of_validate ht hf he
  have hreads := reads_validate token kind t r ht e he
  exact not_storesFail_lossy ⟨e.request, hstore, mayFail_of_failed hanswers hreads hstore hfailed⟩

/-- **The checks of the stamp and of the key end as the store has it**, before the expiry of the
record. -/
theorem learns_checks (hstands : Stands user stamp key w) (hends : Ends user key expiry w)
    (hearly : w.now < expiry) (hstamp : claims.stamp = .ok stamp) (hkey : claims.key = .ok key) :
    Learns (fun _ => False) (· ∈ t) (do checkStamp d user claims; checkKey d user claims)
      ((standing user stamp key w).mapError .rejected) := by
  have hadmits := admits_of_validate ht hf
  have hreads := reads_validate token kind t r ht
  have horder : Orderly d.catalog t := (keepsOrder_validate token kind).orderly ht
  cases hstands with
  | dead hdead =>
    have hhidden : ∀ e ∈ t, HidesStamp user stamp e :=
      Dead.hides hf.of_within horder hdead fun e he =>
        Backend.Request.ne_of_writes (hreads e he) rfl
    rw [standing, if_neg hdead.stored]
    exact (learns_checkStamp_of_hidden hadmits hhidden hstamp).bind_error _
  | current hstored htidy =>
    have hshown : ∀ e ∈ t, ShowsStamp user stamp e := by
      intro e he
      obtain ⟨m, m', hstore, -, hanswers⟩ := answered_of_validate ht hf he
      exact showsStamp_of_answers (hstore ▸ hstored) hanswers
    rw [standing, if_pos hstored]
    refine (learns_checkStamp_of_shown hadmits hshown hstamp).bind ?_
    cases hrecord : w.store.tokens.find? (user, key) with
    | none =>
      have hgone : Gone user key w := ⟨hrecord, htidy hrecord⟩
      have hhidden : ∀ e ∈ t, HidesKey user key e :=
        Gone.hides hf.of_within horder hgone fun e he record heq =>
          absurd heq (Backend.Request.ne_of_writes (hreads e he) rfl)
      rw [hgone.not_live, if_neg Bool.false_ne_true]
      exact learns_checkKey_of_hidden hadmits hhidden hkey
    | some expiresAt =>
      obtain rfl := hends expiresAt hrecord
      have hlive : w.store.isTokenLive user key w.now = true := by
        rw [Store.isTokenLive, hrecord]
        exact decide_eq_true hearly
      have hshown : ∀ e ∈ t, ShowsKey user key expiresAt e := by
        intro e he
        obtain ⟨m, m', hstore, hnow, hanswers⟩ := answered_of_validate ht hf he
        exact showsKey_of_answers (hstore ▸ hrecord) hanswers (hnow ▸ hearly)
      rw [hlive, if_pos rfl]
      exact learns_checkKey_of_shown hadmits hshown hkey

end Telling

/-! ## Validations -/

/-- **A token that stands as said is validated as the store has it**, before the expiry of its
record. -/
theorem decides_validate (hstands : Stands user stamp key w) (hends : Ends user key expiry w)
    (hearly : w.now < expiry) (huser : claims.userId = .ok user)
    (hstamp : claims.stamp = .ok stamp) (hkey : claims.key = .ok key) :
    Decides (validate d (w.signer.sign claims) kind) w
      ((outcome d.tokens kind user (standing user stamp key w)
        (w.signer.verify w.now (w.signer.sign claims))).mapError .rejected) := by
  refine decides_of_ensures fun t r w' ht hf => ?_
  have hverified : ∀ c, ⟨.verify (w.signer.sign claims), .ok c⟩ ∈ t → c = claims := by
    intro c hc
    obtain ⟨now, hverdict⟩ := exists_verified hf.of_within hc
    exact Jwt.Signer.eq_of_verify_sign hverdict
  obtain ⟨verdict, rest, rfl, hconcludes⟩ := concludes_validate ht hverified huser
    (learns_checks ht hf hstands hends hearly hstamp hkey)
  obtain ⟨m, hanswers, -⟩ := follows_cons_iff.mp hf
  have hnow : m.now = w.now := hanswers.1
  have hverdict : verdict = w.signer.verify m.now (w.signer.sign claims) :=
    (verify_answers hanswers.2).2
  rw [← hnow, ← hverdict]
  exact hconcludes.eq fun _ h => h

/-- **The cache does not change what is decided of a token.**  A token is given by a call in a run
of calls, and any calls follow.  At every instant before its record expires, its validation as a
token of either kind comes to one result: as the cache is, and if nothing were found in it.  This is
what the verification and the store make of the token; so it is accepted for its user and with its
claims, or it is rejected. -/
theorem cache_is_transparent {start w₀ w₁ : World} {before after : Log} {c : Call}
    {result : c.Result} (hbefore : History d start before w₀) (hcurrent : c.IsCurrent w₀)
    (hcall : (c.service d).run.Transcript log (.ok result)) (hfollows : outside.Follows w₀ log w₁)
    (hissued : issued ∈ c.gives result) (hafter : Course d w₁ after w)
    (hfresh : Fresh start (before ++ log ++ after)) :
    ∃ user stamp claims expiresAt, issued.text = w.signer.sign claims ∧
      claims.userId = .ok user ∧ claims.stamp = .ok stamp ∧ claims.key = .ok issued.key ∧
      w₁.store.tokens.find? (user, issued.key) = some expiresAt ∧
      (w.now < expiresAt → ∀ kind, Decides (validate d issued.text kind) w
        ((outcome d.tokens kind user (standing user stamp issued.key w)
          (w.signer.verify w.now issued.text)).mapError .rejected)) := by
  have hdistinct := hfresh.distinct
  rw [identifiers_append, identifiers_append, List.nodup_append, List.nodup_append] at hdistinct
  obtain ⟨⟨-, hdrawn, -⟩, -, hapart⟩ := hdistinct
  obtain ⟨claims, user, stamp, expiresAt, h⟩ :=
    issuedIn_of_gives hcurrent hcall hfollows hdrawn hissued
  -- Neither the stamp nor the key is given again.
  have hstamp : stamp.uuid ∉ identifiers after :=
    hfresh.not_mem ((hbefore.call c hcurrent hcall hfollows).sound.stored user stamp h.current)
  have hkey : issued.key.uuid ∉ identifiers after := fun hmem =>
    hapart _ (List.mem_append_right _ h.drawn) _ hmem rfl
  have hstands : Stands user stamp issued.key w := hafter.stands hstamp hkey h.stands
  have hends : Ends user issued.key expiresAt w := hafter.ends hkey (ends_of_recorded h.stored)
  have htext : issued.text = w.signer.sign claims := by rw [h.text, hafter.signer]
  refine ⟨user, stamp, claims, expiresAt, htext, h.ofUser, h.withStamp, h.withKey, h.stored, ?_⟩
  intro hearly kind
  rw [htext]
  exact decides_validate hstands hends hearly h.ofUser h.withStamp h.withKey

/-! ## One user whose stamp is rotated -/

/-- The world after the stamp of the user was rotated. -/
def rotatedOut : World := (World.run (rotateStamp alice.userId).run signedIn).2

/-- The key of the access token is still cached as live. -/
theorem shownLive_rotatedOut : ShownLive alice.userId ⟨.repeating 3⟩ rotatedOut := by
  refine ⟨⟨alice.userId, ⟨.repeating 3⟩⟩, ?_⟩
  have hseen : rotatedOut.cache.seen rotatedOut.now
      (CacheKey.tokenValidity alice.userId ⟨.repeating 3⟩).text =
        some (Json.write (Cached.LiveToken.mk alice.userId ⟨.repeating 3⟩)) := by decide +kernel
  rw [hseen, Option.bind_some, Json.decode?_write]

/-- What was rotated follows what was issued. -/
theorem course_rotatedOut :
    Course lone signedIn (exchanges (rotateStamp alice.userId).run signedIn) rotatedOut :=
  Course.start.run (.rotateStamp alice.userId)

/-- The token is still verified as what was signed for it. -/
theorem verify_rotatedOut :
    rotatedOut.signer.verify rotatedOut.now (oneUser.signer.sign accessClaims) =
      .ok accessClaims := by
  have hsigner : rotatedOut.signer = oneUser.signer := course_rotatedOut.signer
  have hnow : rotatedOut.now = oneUser.now := by decide +kernel
  have hchecked : oneUser.signer.checkClaims oneUser.now accessClaims = .ok () := rfl
  rw [hsigner, hnow, Jwt.Signer.verify_sign, hchecked]
  rfl

/-- But its stamp is no longer that of the user. -/
theorem standing_rotatedOut :
    standing alice.userId alice.stamp ⟨.repeating 3⟩ rotatedOut = .error .invalidSecurityStamp := by
  have hreplaced : rotatedOut.store.stampOf alice.userId ≠ some alice.stamp := by decide +kernel
  exact if_neg hreplaced

/-- **The access token is refused for its stamp after the rotation, whatever the cache tells**,
while its key is still cached as live and its record would not have expired. -/
theorem cache_is_transparent_after_rotation :
    ∃ pair : Token.Pair, World.run (issuePair lone alice).run oneUser = (.ok pair, signedIn) ∧
      ShownLive alice.userId ⟨.repeating 3⟩ rotatedOut ∧ rotatedOut.now < accessUntil ∧
      Decides (validate lone pair.access.text .access) rotatedOut
        (.error (.rejected .invalidSecurityStamp)) := by
  obtain ⟨pair, hpair, -, haccess⟩ := run_issuePair_oneUser
  obtain ⟨htpair, hfpair⟩ := transcript_and_follows_of_run hpair
  obtain ⟨-, hfrotate⟩ : _ ∧ faultless.Follows signedIn _ rotatedOut :=
    transcript_and_follows_of_run (p := (rotateStamp alice.userId).run) rfl
  have hfresh : Fresh oneUser _ := fresh_of_drawn
    (follows_append_iff.mpr ⟨_, hfpair, hfrotate⟩) (by decide +kernel : rotatedOut.drawn ≤ 16)
  have hstart : History lone oneUser [] oneUser := .start
  have hissued : pair.access ∈ (Call.issuePair alice).gives pair := List.mem_cons_self
  obtain ⟨user, stamp, claims, expiresAt, htext, huser, hstamp, hkey, hrecord, hdecides⟩ :=
    cache_is_transparent hstart (c := .issuePair alice) rfl htpair (follows_of_faultless hfpair)
      hissued course_rotatedOut hfresh
  -- What was signed for the token is known, and so is what it names.
  have hverdict := verify_rotatedOut
  rw [← haccess] at hverdict
  obtain rfl : accessClaims = claims := Jwt.Signer.eq_of_verify_sign (htext ▸ hverdict)
  obtain rfl : alice.userId = user := Except.ok.inj ((userId_claimsFor ..).symm.trans huser)
  obtain rfl : alice.stamp = stamp := Except.ok.inj ((stamp_claimsFor ..).symm.trans hstamp)
  have hpresented : pair.access.key = ⟨.repeating 3⟩ :=
    Except.ok.inj (hkey.symm.trans key_accessClaims)
  rw [hpresented] at hrecord hdecides
  obtain rfl : accessUntil = expiresAt := Option.some.inj hrecord
  have hearly : rotatedOut.now < accessUntil := by decide +kernel
  have hclaims : checkClaims lone.tokens accessClaims .access = .ok () := checkClaims_claimsFor ..
  have hdecided := hdecides hearly .access
  rw [hverdict, standing_rotatedOut, outcome, hclaims] at hdecided
  exact ⟨pair, hpair, shownLive_rotatedOut, hearly, hdecided⟩

end AccessControl.Session
