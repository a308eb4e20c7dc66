import AccessControl.Proofs.Session.SignOut
import AccessControl.Proofs.World.Reading

/-! # The end of a token

The record of an issued token says when the token expires.  From that instant on the store does
not count it as live; and no later call changes the record, since records are stored for fresh
keys only (`StoresDrawn`), so as long as there is one it says the same (`Lasts`).

A validation sees the expiry in two places.  The claims of the token name it in whole seconds, and
are held against it only once its second is over.  The record names it exactly, but is looked at
only if the cache does not show the key as live.  **So in the second of its expiry a token is
accepted after it has expired, exactly while the cache shows its key.**  After that second no
token is accepted, and from its expiry on none that is not cached.
-/
namespace AccessControl

/-! ## Whole seconds -/

namespace Instant
variable {s t : Instant}

theorem toInt_seconds (t : Instant) : t.seconds.toInt = t.nanos / second := by
  have hlow := t.low
  have hhigh := t.high
  unfold second at hlow hhigh
  rw [seconds, second, Int64.toInt_ofInt_of_le] <;> omega

/-- A later instant is in no earlier second. -/
theorem seconds_le_of_not_lt (h : ¬t < s) : s.seconds ≤ t.seconds := by
  rw [lt_def] at h
  rw [Int64.le_iff_toInt_le, toInt_seconds, toInt_seconds]
  unfold second
  omega

theorem nanos_of_add? {seconds : Int} (h : s.add? seconds = some t) :
    t.nanos = s.nanos + seconds * second := by
  rw [add?, ofNanos?] at h
  split at h
  · exact congrArg nanos (Option.some.inj h).symm
  · cases h

/-- From an instant to the one it leads to are as many whole seconds as were added. -/
theorem toInt_seconds_sub {seconds : Int} (h : s.add? seconds = some t) :
    t.seconds.toInt - s.seconds.toInt = seconds := by
  rw [toInt_seconds, toInt_seconds, nanos_of_add? h]
  unfold second
  omega

/-- A positive duration leads to a later instant. -/
theorem lt_of_add? {seconds : Int} (hseconds : 0 < seconds) (h : s.add? seconds = some t) :
    s < t := by
  rw [lt_def, nanos_of_add? h]
  unfold second
  omega

/-- A positive duration does not lead to an earlier instant. -/
theorem not_lt_of_add? {seconds : Int} (hseconds : 0 < seconds) (h : s.add? seconds = some t) :
    ¬t < s :=
  Int.not_lt.mpr (Int.le_of_lt (lt_of_add? hseconds h))

end Instant

namespace Session
open World Outside Program
variable {α β : Type} {d : Deployment} {user : UserId} {key : TokenKey} {kind : Token.Kind}
  {w w' : World} {log : Log}

/-! ## Records -/

/-- **Records are stored for keys that were drawn for them.** -/
def StoresDrawn (x : Service α) : Prop :=
  ∀ log r, x.run.Transcript log r → ∀ record a, ⟨.createToken record, a⟩ ∈ log →
    record.key.uuid ∈ identifiers log

/-- Requests that store records for some keys at the most. -/
def StoresFor (keys : TokenKey → Prop) (r : Backend.Request) : Prop :=
  ∀ record, r = .createToken record → keys record.key

/-- A token is issued with the key that was drawn first. -/
theorem storesDrawn_issue (subject : Token.Subject) (kind : Token.Kind)
    (refreshKey : Option TokenKey) : StoresDrawn (issue d subject kind refreshKey) := by
  intro log r h record created hmem
  obtain ⟨uuid, rest, rfl, hissue⟩ := transcript_issue h
  have hasks : (issueWith d subject kind refreshKey ⟨uuid⟩).run.Asks (StoresFor (· = ⟨uuid⟩)) :=
    asks_issueWith (fun _ => nofun) (fun _ => nofun) d subject kind refreshKey
      (fun _ _ _ _ => nofun) (fun _ _ heq => by cases heq; rfl) fun _ _ => nofun
  rcases List.mem_cons.mp hmem with hfirst | hrest
  · cases hfirst
  · rw [hasks rest r hissue _ hrest record rfl]
    exact mem_identifiers.mpr List.mem_cons_self

/-- **Every call stores records for drawn keys only.** -/
theorem Call.storesDrawn (c : Call) : StoresDrawn (c.service d) := by
  have habout : AboutIssuing fun log => ∀ record a, ⟨.createToken record, a⟩ ∈ log →
      record.key.uuid ∈ identifiers log := by
    refine ⟨fun h h' record a hmem => ?_, fun h record _ hmem => (h _ hmem).elim⟩
    rw [identifiers_append, List.mem_append]
    exact (List.mem_append.mp hmem).imp (h record a) (h' record a)
  exact habout.call storesDrawn_issue c

/-- **A service that is given up has stored records for keys that it had drawn by then**: it might
have gone on without drawing the key. -/
theorem StoresDrawn.begins {x : Service α} (hx : StoresDrawn x) (h : x.run.Begins log)
    {record : Token.Record} {created : Except Failure Unit}
    (hmem : ⟨.createToken record, created⟩ ∈ log) : record.key.uuid ∈ identifiers log := by
  obtain ⟨other, hother⟩ : ∃ other, other ≠ record.key.uuid := by
    by_cases hzero : record.key.uuid = .repeating 0
    · exact ⟨.repeating 1, hzero ▸ by decide⟩
    · exact ⟨.repeating 0, Ne.symm hzero⟩
  obtain ⟨u, r, ht, hanswers⟩ := h.exists_transcript fun r =>
    (World.answer r { oneUser with supply := fun _ => other }).1
  have hdrawn := hx _ r ht record created (List.mem_append_left _ hmem)
  rw [identifiers_append, List.mem_append] at hdrawn
  exact hdrawn.resolve_right fun hlater => hother (hanswers _ (mem_identifiers.mp hlater)).symm

/-- A record of a key of a user, if there is one, expires at an instant. -/
def Ends (user : UserId) (key : TokenKey) (expiry : Instant) (w : World) : Prop :=
  ∀ expiresAt, w.store.tokens.find? (user, key) = some expiresAt → expiresAt = expiry

variable {expiry : Instant} {r : Backend.Request}

/-- A record that is stored is the only one. -/
theorem ends_of_recorded (h : w.store.tokens.find? (user, key) = some expiry) :
    Ends user key expiry w :=
  fun _ hfind => Option.some.inj (hfind.symm.trans h)

theorem Ends.drifts (h : Ends user key expiry w) (hw : Drifts w w') : Ends user key expiry w' := by
  intro expiresAt hfind
  rw [hw.store] at hfind
  exact h expiresAt hfind

theorem Ends.answer (h : Ends user key expiry w)
    (hr : ∀ record, r = .createToken record → (record.userId, record.key) ≠ (user, key)) :
    Ends user key expiry (World.answer r w).2 := by
  intro expiresAt hfind
  rcases record_answer hfind with hold | ⟨record, rfl, howner⟩
  · exact h expiresAt hold
  · exact absurd howner.symm (hr record rfl)

/-- The record is replaced only by one for the same key. -/
theorem Ends.answers (h : Ends user key expiry w)
    (hr : ∀ record, r = .createToken record → (record.userId, record.key) ≠ (user, key))
    {a : Backend.Answer r} (ha : outside.Answers r w a w') : Ends user key expiry w' :=
  preserved_of_answers Ends.drifts (·.answer hr) ha h

/-- From its expiry on, a record does not count as live. -/
theorem Ends.not_live {now : Instant} (h : Ends user key expiry w) (hnow : ¬now < expiry) :
    w.store.isTokenLive user key now = false := by
  rw [Store.isTokenLive]
  split
  · rename_i expiresAt hfind
    rw [h expiresAt hfind]
    exact decide_eq_false hnow
  · rfl

/-- **A record keeps its expiry, whatever follows**, if its key is not given anew. -/
theorem Course.ends {start : World} (h : Course d start log w) (hfresh : key.uuid ∉ identifiers log)
    (hstart : Ends user key expiry start) : Ends user key expiry w := by
  induction h with
  | start => exact hstart
  | drift _ hw ih => exact (ih hfresh).drifts hw
  | @call log log' w w' _ c r ht hf ih =>
    rw [identifiers_append, List.mem_append, not_or] at hfresh
    refine hf.invariant (P := Ends user key expiry) (fun e he m m' ha hm => ?_) (ih hfresh.1)
    obtain ⟨r, a⟩ := e
    refine hm.answers (fun record hr howner => ?_) ha
    subst hr
    obtain ⟨-, hkey⟩ := Prod.mk.inj howner
    exact hfresh.2 (hkey ▸ c.storesDrawn log' _ ht record a he)

/-- **The record of an issued token says when the token expires**, and so do its claims. -/
theorem recorded_of_issue {subject : Token.Subject} {refreshKey : Option TokenKey}
    {issued : Token.Issued}
    (ht : (issue d subject kind refreshKey).run.Transcript log (.ok issued))
    (hf : outside.Follows w log w') :
    ∃ issuedAt expiresAt tokenId, issuedAt.add? (d.tokens.lifetime kind) = some expiresAt ∧
      ⟨.now, issuedAt⟩ ∈ log ∧
      ⟨.createToken ⟨subject.userId, issued.key, expiresAt⟩, .ok ()⟩ ∈ log ∧
      issued.text = w.signer.sign
        (claimsFor d.tokens subject kind refreshKey issued.key tokenId issuedAt expiresAt) ∧
      w'.store.tokens.find? (subject.userId, issued.key) = some expiresAt := by
  obtain ⟨rest, rfl, hissue⟩ := transcript_issue_ok ht
  obtain ⟨issuedAt, expiresAt, tokenId, cached, hexpires, -, -, rfl⟩ :=
    transcript_issueWith_ok hissue
  refine ⟨issuedAt, expiresAt, tokenId, hexpires, by simp, by simp, ?_, ?_⟩
  · obtain ⟨m, m', hsigner, v, hv, hsigned⟩ := exists_answers_of_mem hf
      (e := ⟨.sign (claimsFor d.tokens subject kind refreshKey issued.key tokenId issuedAt
        expiresAt), .ok issued.text⟩) (by simp)
    rw [sign_eq_of_answered hsigned rfl, hv.signer, hsigner]
  · -- After the record was stored the token is cached, which leaves the record as it is.
    obtain ⟨_, -, hf⟩ := follows_cons_iff.mp hf
    obtain ⟨_, -, hf⟩ := follows_cons_iff.mp hf
    obtain ⟨_, -, hf⟩ := follows_cons_iff.mp hf
    obtain ⟨_, -, hf⟩ := follows_cons_iff.mp hf
    obtain ⟨stored, hcreate, hf⟩ := follows_cons_iff.mp hf
    obtain ⟨_, hcache, hf⟩ := follows_cons_iff.mp hf
    obtain rfl := follows_nil_iff.mp hf
    have hkept : w'.store = stored.store := store_of_answers (r := .cacheSet _ _ _) rfl hcache
    rw [hkept]
    exact find?_of_createToken hcreate rfl

/-! ## Rejections -/

/-- **A service rejects while the clock shows certain instants**: if it does so from the start of
the service to its end, the service ends, and it fails with a rejection or as a request did. -/
def RejectsWhile (P : Instant → Prop) (x : Service α) (w : World) : Prop :=
  P w.now →
    (∃ log r w', x.run.Transcript log r ∧ (outside.within fun v => P v.now).Follows w log w') ∧
    ∀ log r w', x.run.Transcript log r → (outside.within fun v => P v.now).Follows w log w' →
      ∃ failure, r = .error failure ∧ Accounted failure log

/-- A run without faults takes no time. -/
theorem within_follows_exchanges {P : Instant → Prop} (p : Program Backend α) (h : P w.now) :
    (outside.within fun v => P v.now).Follows w (exchanges p w) (World.run p w).2 := by
  induction p generalizing w with
  | done a => exact .nil w
  | call r next ih =>
    have hnow : P (World.answer r w).2.now := now_answer.symm ▸ h
    exact .cons ⟨hnow, w, .refl w, .served⟩ (ih _ hnow)

theorem rejectsWhile_of_ensures {P : Instant → Prop} {x : Service α} (hx : Accounts x)
    (h : P w.now → (outside.within fun v => P v.now).Ensures x.run w fun r _ =>
      ∃ failure, r = .error failure) : RejectsWhile P x w := by
  refine fun hw => ⟨⟨_, _, _, transcript_exchanges x.run w, within_follows_exchanges x.run hw⟩, ?_⟩
  intro log r w' ht hf
  obtain ⟨failure, rfl⟩ := h hw log r w' ht hf
  exact ⟨failure, rfl, hx log failure ht⟩

variable {claims : Token.Claims}

/-- Claims do not hold once the second of their expiry is over. -/
theorem checkClaims_of_expired (signer : Jwt.Signer) {now : Instant}
    (h : claims.expiresAt < now.seconds) :
    ∃ rejection, signer.checkClaims now claims = .error rejection := by
  rw [Jwt.Signer.checkClaims]
  split
  · exact ⟨_, rfl⟩
  · exact ⟨_, rfl⟩

/-- **Once the second of its expiry is over a token is rejected.** -/
theorem rejects_after_second (hexpires : claims.expiresAt = expiry.seconds) :
    RejectsWhile (expiry.seconds < ·.seconds) (validate d (w.signer.sign claims) kind) w := by
  refine rejectsWhile_of_ensures accounts_validate fun _ => ?_
  rw [validate_run_eq, ensures_call]
  intro verdict v ha
  have hverdict := verify_answers ha.2
  obtain ⟨rejection, hrejection⟩ := checkClaims_of_expired w.signer (hexpires ▸ ha.1)
  rw [Jwt.Signer.verify_sign, hrejection] at hverdict
  obtain ⟨-, rfl⟩ := hverdict
  exact ensures_run_throw.mpr ⟨_, rfl⟩

/-- **From the expiry of its record on a key does not pass its check**, if it is not cached. -/
theorem ensures_checkKey_of_ended (hends : Ends user key expiry w) (hcached : Uncached user key w)
    (hkey : claims.key = .ok key) :
    (outside.within fun v => ¬v.now < expiry).Ensures (checkKey d user claims).run w fun r _ =>
      ∃ failure, r = .error failure := by
  rw [checkKey, hkey, refusing, pure_bind, ensures_run_bind, ensures_run_lift]
  refine (ensures_isLive_of_uncached hcached).within.mono fun cached v hv => ?_
  obtain ⟨rfl, hv⟩ := hv
  dsimp only
  rw [if_neg Bool.false_ne_true, ensures_run_bind, ensures_run_lift]
  refine (ensures_request (I := Backend) (r := .now)).mpr fun now v' ha => ?_
  obtain ⟨hlate, hnow⟩ := ha
  obtain ⟨hv', rfl⟩ := now_answers hnow
  dsimp only
  rw [ensures_run_bind]
  refine (ensures_request (I := Backend) (r := .isTokenLive user key v'.now)).mpr ?_
  rintro (failure | live) v'' ⟨-, hlooked⟩
  · exact ⟨failure, rfl⟩
  · obtain ⟨-, hlive⟩ := isTokenLive_answers hlooked
    have hended : Ends user key expiry v' := (hends.drifts hv).drifts hv'
    obtain rfl : live = false := (hlive live rfl).trans (hended.not_live hlate)
    dsimp only
    rw [if_neg Bool.false_ne_true]
    exact ensures_run_throw.mpr ⟨_, rfl⟩

/-- **From its expiry on a token is rejected**, if its key is not cached. -/
theorem rejects_of_ended (hends : Ends user key expiry w) (hcached : Uncached user key w)
    (huser : claims.userId = .ok user) (hkey : claims.key = .ok key) :
    RejectsWhile (fun now => ¬now < expiry) (validate d (w.signer.sign claims) kind) w := by
  refine rejectsWhile_of_ensures accounts_validate fun _ => ?_
  rw [validate_run_eq, ensures_call]
  intro verdict v ha
  obtain ⟨hv, hverdict⟩ := verify_answers ha.2
  rw [Jwt.Signer.verify_sign] at hverdict
  cases hchecked : w.signer.checkClaims v.now claims with
  | error rejection =>
    rw [hchecked] at hverdict
    subst hverdict
    exact ensures_run_throw.mpr ⟨_, rfl⟩
  | ok _ =>
    rw [hchecked] at hverdict
    obtain rfl : verdict = .ok claims := hverdict
    rw [validateVerified, huser, ensures_run_bind]
    cases checkClaims d.tokens claims kind with
    | error rejection => exact ensures_run_throw.mpr ⟨_, rfl⟩
    | ok _ =>
      rw [refusing, ensures_run_pure, refusing, pure_bind, ensures_run_bind]
      -- The check of the stamp neither stores a record nor caches the key.
      have hasks : (checkStamp d user claims).run.Asks (KeepsAway user key) :=
        asks_checkStamp allowsStamp_keepsAway d claims
      have hkept : outside.Ensures (checkStamp d user claims).run v fun _ v' =>
          Ends user key expiry v' ∧ Uncached user key v' := by
        refine ensures_of_asks hasks (fun r m a m' hr ha hm => ⟨?_, hm.2.answers hr ha⟩)
          ⟨hends.drifts hv, hcached.drifts hv⟩
        refine hm.1.answers (fun record hcreate => ?_) ha
        subst hcreate
        exact hr
      refine hkept.within.mono fun checked v' hv' => ?_
      cases checked with
      | error failure => exact ⟨failure, rfl⟩
      | ok _ =>
        dsimp only
        rw [ensures_run_bind]
        refine (ensures_checkKey_of_ended hv'.1 hv'.2 hkey).mono fun passed v'' hpassed => ?_
        obtain ⟨failure, rfl⟩ := hpassed
        exact ⟨failure, rfl⟩

/-! ## From its expiry on -/

/-- The cache shows that a key of a user is live. -/
def ShownLive (user : UserId) (key : TokenKey) (w : World) : Prop :=
  ∃ item : Cached.LiveToken,
    (w.cache.seen w.now (CacheKey.tokenValidity user key).text).bind Json.decode? = some item

theorem knownLive_iff_of_ended (h : Ends user key expiry w) (hnow : ¬w.now < expiry) :
    KnownLive user key w ↔ ShownLive user key w := by
  rw [KnownLive, h.not_live hnow, ShownLive]
  simp

/-- **A token is accepted past its expiry exactly in the second of its expiry, if the cache shows
its key as live.**  After that second no token is accepted, and from its expiry on none whose key is
not cached; the store does not count it as live any more. -/
theorem accepted_past_expiry_iff {w₀ w₁ : World} {issuance after : Log} {subject : Token.Subject}
    {refreshKey : Option TokenKey} {issued : Token.Issued}
    (hlifetime : 0 < d.tokens.lifetime kind)
    (hissue : (issue d subject kind refreshKey).run.Transcript issuance (.ok issued))
    (hfollows : outside.Follows w₀ issuance w₁) (hafter : Course d w₁ after w)
    (hfresh : issued.key.uuid ∉ identifiers after) :
    ∃ issuedAt expiresAt claims, issuedAt.add? (d.tokens.lifetime kind) = some expiresAt ∧
      ⟨.now, issuedAt⟩ ∈ issuance ∧
      ⟨.createToken ⟨subject.userId, issued.key, expiresAt⟩, .ok ()⟩ ∈ issuance ∧
      (∀ now, ¬now < expiresAt → w.store.isTokenLive subject.userId issued.key now = false) ∧
      (∀ asked, RejectsWhile (expiresAt.seconds < ·.seconds) (validate d issued.text asked) w) ∧
      (Uncached subject.userId issued.key w → ∀ asked,
        RejectsWhile (fun now => ¬now < expiresAt) (validate d issued.text asked) w) ∧
      (¬w.now < expiresAt → w.store.stampOf subject.userId = some subject.stamp →
        ((World.run (validate d issued.text kind).run w).1 = .ok ⟨subject.userId, claims⟩ ↔
          w.now.seconds = expiresAt.seconds ∧ ShownLive subject.userId issued.key w ∧
            0 ≤ issuedAt.seconds ∧ d.tokens.issuer = w.signer.issuer ∧
            d.tokens.audience = w.signer.audience)) := by
  obtain ⟨issuedAt, expiresAt, tokenId, hexpires, hnow, hcreate, htext, hrecorded⟩ :=
    recorded_of_issue hissue hfollows
  have hended : Ends subject.userId issued.key expiresAt w :=
    hafter.ends hfresh (ends_of_recorded hrecorded)
  have hsigner : w₀.signer = w.signer :=
    ((hafter.signer).trans (signer_of_follows hfollows)).symm
  rw [hsigner] at htext
  rw [htext]
  refine ⟨issuedAt, expiresAt, claimsFor d.tokens subject kind refreshKey issued.key tokenId
    issuedAt expiresAt, hexpires, hnow, hcreate, fun _ => hended.not_live, fun asked => ?_,
    fun hcached asked => ?_, fun hlate hstored => ?_⟩
  · exact rejects_after_second rfl
  · exact rejects_of_ended hended hcached (userId_claimsFor ..) (key_claimsFor ..)
  · rw [run_validate_iff (checkClaims_claimsFor ..) (userId_claimsFor ..) (stamp_claimsFor ..)
      (key_claimsFor ..) hstored, knownLive_iff_of_ended hended hlate, Jwt.Signer.checkClaims_iff]
    have hreached : expiresAt.seconds ≤ w.now.seconds := Instant.seconds_le_of_not_lt hlate
    have hlasts : issuedAt.seconds ≤ expiresAt.seconds :=
      Instant.seconds_le_of_not_lt (Instant.not_lt_of_add? hlifetime hexpires)
    constructor
    · rintro ⟨⟨-, hissued, hover, -, hissuer, haudience⟩, hshown⟩
      exact ⟨Int64.le_antisymm hover hreached, hshown, hissued, hissuer, haudience⟩
    · rintro ⟨hsecond, hshown, hissued, hissuer, haudience⟩
      refine ⟨⟨Int64.le_trans hissued hlasts, hissued, hsecond ▸ Int64.le_refl _, ?_, hissuer,
        haudience⟩, hshown⟩
      exact Int64.le_trans hlasts hreached

/-! ## A token of one second -/

/-- A deployment whose access tokens last one second. -/
def brief : Deployment := ⟨.empty, 60, { issuer := "", audience := "", accessLifetime := 1 }⟩

/-- When an access token expires that is issued there at the beginning of time. -/
def briefUntil : Instant := ⟨Instant.second, by decide, by decide⟩

/-- Half a second later. -/
def tooLate : Instant := ⟨1500000000, by decide, by decide⟩

/-- What the token says. -/
def briefClaims : Token.Claims :=
  claimsFor brief.tokens alice .access none ⟨.repeating 1⟩ (.repeating 2) oneUser.now briefUntil

/-- The world after the token was issued. -/
def briefly : World := afterIssue brief alice.userId ⟨.repeating 1⟩ briefUntil oneUser

theorem run_issue_brief : ∃ issued,
    World.run (issue brief alice .access none).run oneUser = (.ok issued, briefly) ∧
    issued.key = ⟨.repeating 1⟩ ∧ issued.text = oneUser.signer.sign briefClaims :=
  run_issue brief alice .access none rfl rfl

theorem shownLive_briefly :
    ShownLive alice.userId ⟨.repeating 1⟩ { briefly with now := tooLate } := by
  refine ⟨⟨alice.userId, ⟨.repeating 1⟩⟩, ?_⟩
  have hseen : MemoryCache.seen briefly.cache tooLate
      (CacheKey.tokenValidity alice.userId ⟨.repeating 1⟩).text =
      some (Json.write (Cached.LiveToken.mk alice.userId ⟨.repeating 1⟩)) := rfl
  show (MemoryCache.seen briefly.cache tooLate _).bind Json.decode? = _
  rw [hseen, Option.bind_some, Json.decode?_write]

/-- **A token is accepted half a second after it has expired**, while the store does not count it as
live. -/
theorem accepted_after_expiry : ∃ issued,
    World.run (issue brief alice .access none).run oneUser = (.ok issued, briefly) ∧
    briefly.store.tokens.find? (alice.userId, issued.key) = some briefUntil ∧
    ¬tooLate < briefUntil ∧
    briefly.store.isTokenLive alice.userId issued.key tooLate = false ∧
    (World.run (validate brief issued.text .access).run { briefly with now := tooLate }).1 =
      .ok ⟨alice.userId, briefClaims⟩ := by
  obtain ⟨issued, hissue, hkey, htext⟩ := run_issue_brief
  have hrecord : briefly.store.tokens.find? (alice.userId, issued.key) = some briefUntil := by
    rw [hkey]
    exact (Table.find?_insert ..).trans (if_pos rfl)
  refine ⟨issued, hissue, hrecord, by decide, ?_, ?_⟩
  · rw [Store.isTokenLive, hrecord]
    exact decide_eq_false (by decide)
  · rw [htext]
    have hchecked : briefly.signer.checkClaims tooLate briefClaims = .ok () := rfl
    have hstored : briefly.store.stampOf alice.userId = some alice.stamp := rfl
    have hclaims : checkClaims brief.tokens briefClaims .access = .ok () :=
      checkClaims_claimsFor ..
    have huser : briefClaims.userId = .ok alice.userId := userId_claimsFor ..
    have hstamp : briefClaims.stamp = .ok alice.stamp := stamp_claimsFor ..
    have hkey' : briefClaims.key = .ok ⟨.repeating 1⟩ := key_claimsFor ..
    exact (run_validate_iff (w := { briefly with now := tooLate }) hclaims huser hstamp hkey'
      hstored).mpr ⟨hchecked, .inl shownLive_briefly⟩

/-- Half a second after its expiry a token of one second is accepted; once the second is over it is
rejected. -/
theorem accepted_past_expiry_iff_briefly : ∃ issued claims,
    World.run (issue brief alice .access none).run oneUser = (.ok issued, briefly) ∧
    0 < brief.tokens.lifetime .access ∧
    (World.run (validate brief issued.text .access).run { briefly with now := tooLate }).1 =
      .ok ⟨alice.userId, claims⟩ ∧
    ∀ asked, RejectsWhile (briefUntil.seconds < ·.seconds) (validate brief issued.text asked)
      { briefly with now := tooLate } := by
  obtain ⟨issued, hissue, hkey, htext⟩ := run_issue_brief
  have ht := transcript_exchanges (issue brief alice .access none).run oneUser
  have hf : outside.Follows oneUser _ _ :=
    follows_exchanges (issue brief alice .access none).run oneUser
  rw [hissue] at ht hf
  have hdrift : Drifts briefly { briefly with now := tooLate } :=
    ⟨rfl, rfl, rfl, rfl, fun _ _ h => .inl h⟩
  obtain ⟨issuedAt, expiresAt, claims, -, hnow, hcreate, -, hover, -, haccepted⟩ :=
    accepted_past_expiry_iff (by decide) ht hf (.drift .start hdrift) List.not_mem_nil
  have hlog : World.exchanges (issue brief alice .access none).run oneUser =
      [⟨.fresh, .repeating 1⟩, ⟨.now, oneUser.now⟩, ⟨.fresh, .repeating 2⟩,
        ⟨.sign briefClaims, .ok (oneUser.signer.sign briefClaims)⟩,
        ⟨.createToken ⟨alice.userId, ⟨.repeating 1⟩, briefUntil⟩, .ok ()⟩,
        ⟨.cacheSet (CacheKey.tokenValidity alice.userId ⟨.repeating 1⟩).text
          (Json.write (Cached.LiveToken.mk alice.userId ⟨.repeating 1⟩)) 60, .ok ()⟩] := rfl
  rw [hlog] at hnow hcreate
  obtain rfl : issuedAt = oneUser.now := by simpa using hnow
  obtain ⟨-, rfl⟩ : _ ∧ expiresAt = briefUntil := by simpa using hcreate
  refine ⟨issued, claims, hissue, by decide, (haccepted (by decide) rfl).mpr ?_, hover⟩
  exact ⟨by decide, hkey ▸ shownLive_briefly, by decide, rfl, rfl⟩

end Session
end AccessControl
