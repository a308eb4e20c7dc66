import AccessControl.Proofs.Session.Faultless
import AccessControl.Proofs.Session.Gone
import AccessControl.Proofs.World.Alike

/-! # Signing out is final

A revocation that succeeds leaves the key of the token and the key that it is linked to gone: no
record of them is left, and nothing in the cache says that they are live.  No later call brings
them back, since only fresh keys are stored and only stored keys are cached; so whatever a token
with such a key passes, it fails the check of its key.  All other tokens are validated as before:
the worlds before and after the revocation differ in the revoked keys alone, and the validation
of another token is not concerned with these.
-/
namespace AccessControl.Session
open World Outside Program
variable {α β : Type} {d : Deployment} {user : UserId} {key : TokenKey} {token : String}
  {kind : Token.Kind} {claims : Token.Claims} {v w w' : World} {log : Log}

/-- A revocation is to remove a key: that of the token, or that of the linked refresh token. -/
def Revoked (claims : Token.Claims) (key : TokenKey) : Prop :=
  claims.key = .ok key ∨ claims.refreshKey = some key

/-- **A token is one of a user with a key**: whenever it is verified, it says so. -/
def Carries (signer : Jwt.Signer) (token : String) (user : UserId) (key : TokenKey) : Prop :=
  ∃ now claims, signer.verify now token = .ok claims ∧ claims.userId = .ok user ∧
    claims.key = .ok key

/-- What is signed for a user with a key carries it, if it is verified at some instant. -/
theorem carries_of_sign {signer : Jwt.Signer} {now : Instant}
    (hchecked : signer.checkClaims now claims = .ok ()) (huser : claims.userId = .ok user)
    (hkey : claims.key = .ok key) : Carries signer (signer.sign claims) user key := by
  refine ⟨now, claims, ?_, huser, hkey⟩
  rw [Jwt.Signer.verify_sign, hchecked]
  rfl

/-- What is signed carries nothing but what was signed. -/
theorem claims_of_carries_sign {signer : Jwt.Signer}
    (h : Carries signer (signer.sign claims) user key) :
    claims.userId = .ok user ∧ claims.key = .ok key := by
  obtain ⟨now, said, hverified, huser, hkey⟩ := h
  obtain rfl := Jwt.Signer.eq_of_verify_sign hverified
  exact ⟨huser, hkey⟩

/-! ## Where failures come from -/

/-- A failure is a rejection, or that of one of the requests. -/
def Accounted (failure : Failure) (log : Log) : Prop :=
  (∃ rejection, failure = .rejected rejection) ∨
    ∃ e ∈ log, Trial.failed failure e.request = some e.answer

/-- Whatever answers a service, it fails with a rejection or as one of its requests did. -/
def Accounts (x : Service α) : Prop :=
  ∀ log failure, x.run.Transcript log (.error failure) → Accounted failure log

/-- A store has failed in the course of exchanges. -/
def StoreFailed (failure : Failure) (log : Log) : Prop :=
  ∃ e ∈ log, e.request.isCaching = false ∧ Trial.failed failure e.request = some e.answer

/-- Whatever answers a service, it fails with a rejection or as a store did.  The cache does not
make it fail. -/
def FailsByStore (x : Service α) : Prop :=
  ∀ log failure, x.run.Transcript log (.error failure) →
    (∃ rejection, failure = .rejected rejection) ∨ StoreFailed failure log

theorem FailsByStore.accounts {x : Service α} (hx : FailsByStore x) : Accounts x :=
  fun log failure h => (hx log failure h).imp_right fun ⟨e, he, _, hfailed⟩ => ⟨e, he, hfailed⟩

theorem FailsByStore.bind {x : Service α} {f : α → Service β} (hx : FailsByStore x)
    (hf : ∀ a, FailsByStore (f a)) : FailsByStore (x >>= f) := by
  intro log failure h
  rcases transcript_run_bind_iff.mp h with ⟨t, a, u, rfl, -, hu⟩ | ⟨_, hfailure, hx'⟩
  · rcases hf a u failure hu with hrejected | ⟨e, he, hfailed⟩
    · exact .inl hrejected
    · exact .inr ⟨e, List.mem_append_right _ he, hfailed⟩
  · obtain rfl := Except.error.inj hfailure
    exact hx log failure hx'

theorem failsByStore_pure (a : α) : FailsByStore (pure a : Service α) :=
  fun _ _ h => nomatch (transcript_run_pure_iff.mp h).2

theorem failsByStore_reject (rejection : Rejection) :
    FailsByStore (throw (.rejected rejection) : Service α) := by
  intro log failure h
  obtain ⟨-, hfailure⟩ := transcript_run_throw_iff.mp h
  exact .inl ⟨rejection, Except.error.inj hfailure⟩

theorem failsByStore_lift (p : Program Backend α) : FailsByStore (liftM p : Service α) := by
  intro log failure h
  obtain ⟨_, hok, -⟩ := transcript_run_lift_iff.mp h
  cases hok

theorem failsByStore_refusing (check : Except Rejection α) : FailsByStore (refusing check) := by
  cases check with
  | ok a => exact failsByStore_pure a
  | error rejection => exact failsByStore_reject rejection

theorem failsByStore_findStamp : FailsByStore (Backend.findStamp user) := by
  intro log failure h
  obtain rfl := transcript_request_iff.mp h
  exact .inr ⟨_, List.mem_cons_self, rfl, rfl⟩

theorem failsByStore_isTokenLive (now : Instant) :
    FailsByStore (Backend.isTokenLive user key now) := by
  intro log failure h
  obtain rfl := transcript_request_iff.mp h
  exact .inr ⟨_, List.mem_cons_self, rfl, rfl⟩

theorem failsByStore_checkStamp : FailsByStore (checkStamp d user claims) := by
  refine (failsByStore_refusing _).bind fun claimed => (failsByStore_lift _).bind fun cached? => ?_
  split
  · exact failsByStore_pure _
  · refine failsByStore_findStamp.bind fun current? => ?_
    split
    · exact failsByStore_lift _
    · exact failsByStore_reject _

theorem failsByStore_checkKey : FailsByStore (checkKey d user claims) := by
  refine (failsByStore_refusing _).bind fun key => (failsByStore_lift _).bind fun cached => ?_
  split
  · exact failsByStore_pure _
  · refine (failsByStore_lift _).bind fun now => (failsByStore_isTokenLive now).bind fun live => ?_
    split
    · exact failsByStore_lift _
    · exact failsByStore_reject _

/-- **A validation fails with a rejection or as a store did.** -/
theorem failsByStore_validate : FailsByStore (validate d token kind) := by
  rw [FailsByStore, validate_run_eq]
  intro log failure h
  obtain ⟨verdict, rest, rfl, hrest⟩ := transcript_call_iff.mp h
  have hverified : FailsByStore (validateVerified d kind verdict) := by
    cases verdict with
    | error rejection => exact failsByStore_reject rejection
    | ok claims =>
      refine (failsByStore_refusing _).bind fun _ => (failsByStore_refusing _).bind fun owner => ?_
      exact failsByStore_checkStamp.bind fun _ =>
        failsByStore_checkKey.bind fun _ => failsByStore_pure _
  rcases hverified rest failure hrest with hrejected | ⟨e, he, hfailed⟩
  · exact .inl hrejected
  · exact .inr ⟨e, List.mem_cons_of_mem _ he, hfailed⟩

theorem accounts_validate : Accounts (validate d token kind) := failsByStore_validate.accounts

/-! ## Tokens whose key is gone -/

/-- **A service rejects in a world.**  It ends, and however it does, it fails: with a rejection,
or as one of its requests did. -/
def Rejects (x : Service α) (w : World) : Prop :=
  (∃ log r w', x.run.Transcript log r ∧ outside.Follows w log w') ∧
  ∀ log r w', x.run.Transcript log r → outside.Follows w log w' →
    ∃ failure, r = .error failure ∧ Accounted failure log

/-- **A token whose key is gone does not pass.** -/
theorem ensures_validate_of_gone (hw : Gone user key w)
    (htoken : Carries w.signer token user key) :
    outside.Ensures (validate d token kind).run w fun r _ => ∃ failure, r = .error failure := by
  obtain ⟨now, claims, hverified, huser, hkey⟩ := htoken
  rw [validate_run_eq, ensures_call]
  intro verdict v ha
  obtain ⟨hv, hverdict⟩ := verify_answers ha
  rw [Jwt.Signer.verify_of_verify_eq_ok hverified] at hverdict
  cases hchecked : w.signer.checkClaims v.now claims with
  | error rejection =>
    rw [hchecked] at hverdict
    subst hverdict
    exact ensures_run_throw.mpr ⟨_, rfl⟩
  | ok _ =>
    rw [hchecked] at hverdict
    subst hverdict
    show outside.Ensures (validateVerified d kind (.ok claims)).run v _
    rw [validateVerified]
    cases checkClaims d.tokens claims kind with
    | error rejection => exact ensures_run_throw.mpr ⟨_, rfl⟩
    | ok _ =>
      rw [huser, refusing, refusing, pure_bind, pure_bind, ensures_run_bind]
      -- Whether or not the stamp passes, the key is still gone when it is checked.
      have hstays : outside.Preserves (Gone user key) (checkStamp d user claims) :=
        preserves_of_asks (asks_checkStamp allowsStamp_keepsAway d claims)
          fun _ _ _ _ hr ha hgone => hgone.answers hr ha
      refine (hstays v (hw.drifts hv)).mono fun r v' hv' => ?_
      cases r with
      | error failure => exact ⟨failure, rfl⟩
      | ok _ =>
        dsimp only
        rw [ensures_run_bind]
        refine (ensures_checkKey_of_gone hv' hkey).mono fun r _ hr => ?_
        obtain ⟨⟨failure, rfl⟩, -⟩ := hr
        exact ⟨failure, rfl⟩

theorem rejects_validate_of_gone (hw : Gone user key w)
    (htoken : Carries w.signer token user key) : Rejects (validate d token kind) w := by
  refine ⟨⟨_, _, _, transcript_exchanges _ w, follows_exchanges _ w⟩, fun log r w' ht hf => ?_⟩
  obtain ⟨failure, rfl⟩ := ensures_validate_of_gone hw htoken log r w' ht hf
  exact ⟨failure, rfl, accounts_validate log failure ht⟩

/-- What is not accepted is not exchanged either, since it is validated first. -/
theorem rejects_refreshAccess (h : outside.Ensures (validate d token .refresh).run w fun r _ =>
    ∃ failure, r = .error failure) : Rejects (refreshAccess d token) w := by
  refine ⟨⟨_, _, _, transcript_exchanges _ w, follows_exchanges _ w⟩, fun log r w' ht hf => ?_⟩
  rcases transcript_run_bind_iff.mp ht with
    ⟨t, validated, u, rfl, hvalidate, -⟩ | ⟨failure, rfl, hfailed⟩
  · obtain ⟨m, hm, -⟩ := follows_append_iff.mp hf
    obtain ⟨_, hok⟩ := h _ _ _ hvalidate hm
    cases hok
  · exact ⟨failure, rfl, accounts_validate log failure hfailed⟩

theorem rejects_refreshAccess_of_gone (hw : Gone user key w)
    (htoken : Carries w.signer token user key) : Rejects (refreshAccess d token) w :=
  rejects_refreshAccess (ensures_validate_of_gone hw htoken)

/-! ## What follows a revocation -/

/-- **Any calls one after the other**, for any subjects, and drifts at any time. -/
inductive Course (d : Deployment) (start : World) : Log → World → Prop where
  | start : Course d start [] start
  /-- The cache loses or spoils values, and time passes. -/
  | drift {log : Log} {w w' : World} (h : Course d start log w) (hw : Drifts w w') :
    Course d start log w'
  /-- One more call has ended. -/
  | call {log log' : Log} {w w' : World} (h : Course d start log w) (c : Call)
    {r : Except Failure c.Result} (ht : (c.service d).run.Transcript log' r)
    (hf : outside.Follows w log' w') : Course d start (log ++ log') w'

namespace Course
variable {start : World}

/-- A call that is run without faults continues a course. -/
theorem run (h : Course d start log w) (c : Call) :
    Course d start (log ++ World.exchanges (c.service d).run w)
      (World.run (c.service d).run w).2 :=
  h.call c (transcript_exchanges _ w) (follows_exchanges _ w)

theorem signer (h : Course d start log w) : w.signer = start.signer := by
  induction h with
  | start => rfl
  | drift _ hw ih => exact hw.signer.trans ih
  | call _ c ht hf ih => exact (signer_of_follows hf).trans ih

/-- **A key that is gone stays gone**, whatever follows, if it is not given anew. -/
theorem gone (h : Course d start log w) (hfresh : key.uuid ∉ identifiers log)
    (hstart : Gone user key start) : Gone user key w := by
  induction h with
  | start => exact hstart
  | drift _ hw ih => exact (ih hfresh).drifts hw
  | @call log log' w w' _ c r ht hf ih =>
    rw [identifiers_append, List.mem_append, not_or] at hfresh
    have hnew : ∀ e ∈ log', e ≠ ⟨.fresh, key.uuid⟩ := by
      rintro e he rfl
      exact hfresh.2 (mem_identifiers.mpr he)
    exact c.leavesGone w (ih hfresh.1) _ _ _ ht (hf.only hnew)

end Course

/-- A revocation goes through the keys that it is to remove. -/
theorem mem_keys_iff_revoked {own : TokenKey} (hown : claims.key = .ok own) :
    key ∈ own :: claims.refreshKey.toList ↔ Revoked claims key := by
  rw [Revoked, hown, List.mem_cons, Option.mem_toList, Except.ok.injEq, @eq_comm _ own]

/-- **A revocation that succeeds leaves its keys gone.** -/
theorem gone_of_revoke (ht : (revoke user claims).run.Transcript log (.ok ()))
    (hf : outside.Follows w log w') (hkey : Revoked claims key) : Gone user key w' := by
  rw [revoke] at ht
  split at ht
  · cases (transcript_run_throw_iff.mp ht).2
  · rename_i own hown
    exact ensures_revokeKeys _ _ _ _ ht hf rfl key ((mem_keys_iff_revoked hown).mpr hkey)

/-! ## All other tokens -/

/-- The owners of the keys that a revocation is to remove. -/
def RevokedOf (user : UserId) (claims : Token.Claims) (owner : UserId × TokenKey) : Prop :=
  owner.1 = user ∧ Revoked claims owner.2

/-- **Two worlds in which a program ends alike**: without faults it has the same result in both,
and whatever is exchanged with it in one of them, faults included, may be so in the other. -/
structure SameOutcome (p : Program Backend α) (w w' : World) : Prop where
  faultless : (World.run p w').1 = (World.run p w).1
  faulty : ∀ t r, p.Transcript t r →
    ((∃ v, (steady mayFail).Follows w t v) ↔ ∃ v, (steady mayFail).Follows w' t v)

/-- Related worlds are such, if in both of them the program only makes requests that these answer
alike. -/
theorem sameOutcome_of_alike {R : World → World → Prop} {P : Backend.Request → Prop}
    {p : Program Backend α} (hR : AnswersAlike R P) (h : R w w') (hback : R w' w)
    (hasks : ∀ t r v, p.Transcript t r → (steady mayFail).Follows w t v → ∀ e ∈ t, P e.request)
    (hasks' : ∀ t r v, p.Transcript t r → (steady mayFail).Follows w' t v →
      ∀ e ∈ t, P e.request) : SameOutcome p w w' where
  faultless :=
    hR.run_eq h (hasks _ _ _ (transcript_exchanges p w) (steady_follows_exchanges p w))
  faulty := by
    intro t r ht
    constructor
    · rintro ⟨v, hv⟩
      obtain ⟨v', hv', -⟩ := hR.follows h (hasks t r v ht hv) hv
      exact ⟨v', hv'⟩
    · rintro ⟨v, hv⟩
      obtain ⟨v', hv', -⟩ := hR.follows hback (hasks' t r v ht hv) hv
      exact ⟨v', hv'⟩

/-- A revocation removes what is of its keys, and asks for nothing else. -/
theorem asks_revoke_removes : (revoke user claims).run.Asks (Removes (RevokedOf user claims)) := by
  rw [revoke]
  split
  · exact asks_run_throw _
  · rename_i own hown
    refine asks_revokeKeys fun key hkey => ?_
    have hrevoked : RevokedOf user claims (user, key) := ⟨rfl, (mem_keys_iff_revoked hown).mp hkey⟩
    exact ⟨hrevoked, (user, key), hrevoked, rfl⟩

/-- **The worlds before and after a revocation differ in the revoked keys alone**, however it
ends. -/
theorem alikeBut_of_revoke {r : Except Failure Unit}
    (ht : (revoke user claims).run.Transcript log r) (hf : (steady mayFail).Follows w log w') :
    AlikeBut (RevokedOf user claims) w w' := by
  refine hf.invariant (P := AlikeBut (RevokedOf user claims) w) (fun e he m m' ha hm => ?_)
    (.refl w)
  exact hm.trans (.of_removes (asks_revoke_removes log r ht e he) ha)

/-- Once it is verified, a token that has none of some keys is validated without any request of
these. -/
theorem asks_validateVerified_unconcerned {owners : UserId × TokenKey → Prop}
    {verdict : Except Rejection Token.Claims}
    (hverdict : ∀ c owner key, verdict = .ok c → c.userId = .ok owner → c.key = .ok key →
      ¬owners (owner, key)) :
    (validateVerified d kind verdict).run.Asks (Unconcerned owners) := by
  refine asks_validateVerified (fun _ owner _ _ => ?_)
    fun claims owner key hclaims howner hkey => ?_
  · have hbesides : Besides owners (CacheKey.securityStamp owner).text :=
      fun _ _ htext => nomatch CacheKey.text_injective htext
    exact ⟨hbesides, hbesides, trivial, fun _ _ => hbesides⟩
  · have hother : ¬owners (owner, key) := hverdict claims owner key hclaims howner hkey
    have hbesides : Besides owners (CacheKey.tokenValidity owner key).text := by
      intro revoked hrevoked htext
      obtain ⟨rfl, rfl⟩ := CacheKey.tokenValidity.inj (CacheKey.text_injective htext)
      exact hother hrevoked
    exact ⟨hbesides, hbesides, trivial, fun _ => hother, fun _ => hbesides⟩

/-- **The validation of another token is not concerned with the revoked keys.** -/
theorem unconcerned_of_validate {t : Log} {r : Except Failure Token.Validated}
    (ht : (validate d token kind).run.Transcript t r) (hf : (steady mayFail).Follows w t v)
    (hother : ∀ key, Revoked claims key → ¬Carries w.signer token user key) :
    ∀ e ∈ t, Unconcerned (RevokedOf user claims) e.request := by
  rw [validate_run_eq] at ht
  obtain ⟨verdict, rest, rfl, hrest⟩ := transcript_call_iff.mp ht
  obtain ⟨m, ha, -⟩ := follows_cons_iff.mp hf
  have hverdict : verdict = w.signer.verify w.now token := (verify_answered ha).2
  refine List.forall_mem_cons.mpr ⟨trivial, ?_⟩
  refine asks_validateVerified_unconcerned (fun c owner key hc howner hkey hrevoked => ?_) rest r
    hrest
  obtain ⟨rfl, hrevoked⟩ := hrevoked
  exact hother key hrevoked ⟨w.now, c, hverdict.symm.trans hc, howner, hkey⟩

/-- **A token with another key is validated after a revocation as before it.** -/
theorem sameOutcome_of_revoke {r : Except Failure Unit}
    (ht : (revoke user claims).run.Transcript log r) (hf : (steady mayFail).Follows w log w')
    (hother : ∀ key, Revoked claims key → ¬Carries w.signer token user key) :
    SameOutcome (validate d token kind).run w w' := by
  have halike := alikeBut_of_revoke ht hf
  have hother' : ∀ key, Revoked claims key → ¬Carries w'.signer token user key := by
    rw [halike.signer]
    exact hother
  exact sameOutcome_of_alike answersAlike_alikeBut halike halike.symm
    (fun _ _ _ ht hv => unconcerned_of_validate ht hv hother)
    fun _ _ _ ht hv => unconcerned_of_validate ht hv hother'

/-- **Signing out is final.**  A revocation for claims has succeeded, and any calls follow, in
which no identifier is given that is one of the revoked keys.  Then no token of the user with such
a key is accepted any more, as a token of either kind or in exchange for another.  And if nothing
drifts while it is revoked, every other token is validated right after as it was right before. -/
theorem sign_out_is_final {w₁ w₂ w₃ : World} {revocation after : Log}
    (hrevoke : (revoke user claims).run.Transcript revocation (.ok ()))
    (hfollows : outside.Follows w₁ revocation w₂) (hafter : Course d w₂ after w₃)
    (hfresh : ∀ key, Revoked claims key → key.uuid ∉ identifiers after) :
    (∀ token key, Revoked claims key → Carries w₁.signer token user key →
      (∀ kind, Rejects (validate d token kind) w₃) ∧ Rejects (refreshAccess d token) w₃) ∧
    ((steady mayFail).Follows w₁ revocation w₂ → ∀ token kind,
      (∀ key, Revoked claims key → ¬Carries w₁.signer token user key) →
      SameOutcome (validate d token kind).run w₁ w₂) := by
  constructor
  · intro token key hkey htoken
    have hgone : Gone user key w₃ :=
      hafter.gone (hfresh key hkey) (gone_of_revoke hrevoke hfollows hkey)
    have hsigner : w₃.signer = w₁.signer := hafter.signer.trans (signer_of_follows hfollows)
    rw [← hsigner] at htoken
    exact ⟨fun kind => rejects_validate_of_gone hgone htoken,
      rejects_refreshAccess_of_gone hgone htoken⟩
  · exact fun hsteady token kind hother => sameOutcome_of_revoke hrevoke hsteady hother

/-! ## One user who signs in and out -/

/-- The access token is accepted, however many identifiers were given since. -/
theorem accepts_signedIn (drawn : Nat) :
    (World.run (validate lone (oneUser.signer.sign accessClaims) .access).run
      { signedIn with drawn }).1 = .ok ⟨alice.userId, accessClaims⟩ := by
  have hchecked : signedIn.signer.checkClaims signedIn.now accessClaims = .ok () := rfl
  have hstored : signedIn.store.stampOf alice.userId = some alice.stamp := rfl
  have hlive : KnownLive alice.userId ⟨.repeating 3⟩ signedIn := .inr (by decide +kernel)
  have hclaims : checkClaims lone.tokens accessClaims .access = .ok () := checkClaims_claimsFor ..
  have huser : accessClaims.userId = .ok alice.userId := userId_claimsFor ..
  have hstamp : accessClaims.stamp = .ok alice.stamp := stamp_claimsFor ..
  exact (run_validate_iff (w := { signedIn with drawn }) hclaims huser hstamp key_accessClaims
    hstored).mpr ⟨hchecked, hlive⟩

/-- The world after the user has signed out. -/
def signedOut : World := (World.run (revoke alice.userId accessClaims).run signedIn).2

theorem refreshKey_accessClaims : accessClaims.refreshKey = some ⟨.repeating 1⟩ :=
  refreshKey_claimsFor_access ..

theorem revoked_accessClaims :
    Revoked accessClaims key ↔ key = ⟨.repeating 3⟩ ∨ key = ⟨.repeating 1⟩ := by
  rw [Revoked, key_accessClaims, refreshKey_accessClaims, Except.ok.injEq, Option.some.injEq,
    @eq_comm _ _ key, @eq_comm _ _ key]

theorem revoked_refreshClaims : Revoked refreshClaims key ↔ key = ⟨.repeating 1⟩ := by
  have hunlinked : refreshClaims.refreshKey = none := refreshKey_claimsFor_refresh ..
  rw [Revoked, key_refreshClaims, hunlinked, Except.ok.injEq, @eq_comm _ _ key]
  exact or_iff_left nofun

/-- Who signs in again is given other identifiers. -/
theorem identifiers_signedInAgain :
    identifiers (World.exchanges (issuePair lone alice).run signedOut) =
      [.repeating 5, .repeating 6, .repeating 7, .repeating 8] := by
  have hkeys : revoke alice.userId accessClaims =
      revokeKeys alice.userId [⟨.repeating 3⟩, ⟨.repeating 1⟩] := by
    rw [revoke, key_accessClaims]
    dsimp only
    rw [refreshKey_accessClaims]
    rfl
  rw [signedOut, hkeys]
  decide +kernel

theorem carries_access :
    Carries signedIn.signer (oneUser.signer.sign accessClaims) alice.userId ⟨.repeating 3⟩ := by
  have hchecked : oneUser.signer.checkClaims oneUser.now accessClaims = .ok () := rfl
  have huser : accessClaims.userId = .ok alice.userId := userId_claimsFor ..
  exact carries_of_sign hchecked huser key_accessClaims

theorem carries_refresh :
    Carries signedIn.signer (oneUser.signer.sign refreshClaims) alice.userId ⟨.repeating 1⟩ := by
  have hchecked : oneUser.signer.checkClaims oneUser.now refreshClaims = .ok () := rfl
  have huser : refreshClaims.userId = .ok alice.userId := userId_claimsFor ..
  exact carries_of_sign hchecked huser key_refreshClaims

/-- A user signs in, out, and in again: the tokens of the first time are not accepted.  If only
the refresh token is revoked, the access token is validated as before. -/
theorem sign_out_is_final_after_issuePair :
    ∃ pair,
      World.run (issuePair lone alice).run oneUser = (.ok pair, signedIn) ∧
      (World.run (validate lone pair.access.text .access).run signedIn).1 =
        .ok ⟨alice.userId, accessClaims⟩ ∧
      World.run (revoke alice.userId accessClaims).run signedIn = (.ok (), signedOut) ∧
      (∀ kind, Rejects (validate lone pair.access.text kind)
        (World.run (issuePair lone alice).run signedOut).2) ∧
      Rejects (refreshAccess lone pair.refresh.text)
        (World.run (issuePair lone alice).run signedOut).2 ∧
      SameOutcome (validate lone pair.access.text .access).run signedIn
        (World.run (revoke alice.userId refreshClaims).run signedIn).2 := by
  obtain ⟨pair, hissue, hrefresh, haccess⟩ := run_issuePair_oneUser
  have hrevoked : (World.run (revoke alice.userId accessClaims).run signedIn).1 = .ok () :=
    run_revoke key_accessClaims
  have hsignedOut : World.run (revoke alice.userId accessClaims).run signedIn =
      (.ok (), signedOut) := by
    exact Prod.ext hrevoked (by rw [signedOut])
  have hrevocation := transcript_exchanges (revoke alice.userId accessClaims).run signedIn
  rw [hrevoked] at hrevocation
  have hafter : Course lone signedOut _ _ := Course.start.run (.issuePair alice)
  rw [List.nil_append] at hafter
  have hfresh : ∀ key, Revoked accessClaims key →
      key.uuid ∉ identifiers (World.exchanges (issuePair lone alice).run signedOut) := by
    intro key hkey
    rw [identifiers_signedInAgain]
    rcases revoked_accessClaims.mp hkey with rfl | rfl <;> decide
  obtain ⟨hfinal, -⟩ := sign_out_is_final hrevocation (follows_exchanges _ signedIn) hafter hfresh
  obtain ⟨hvalidate, -⟩ := hfinal _ _ (revoked_accessClaims.mpr (.inl rfl)) carries_access
  obtain ⟨-, hexchange⟩ := hfinal _ _ (revoked_accessClaims.mpr (.inr rfl)) carries_refresh
  rw [← haccess] at hvalidate
  rw [← hrefresh] at hexchange
  -- Only the refresh token is revoked.
  have hrefreshRevoked : (World.run (revoke alice.userId refreshClaims).run signedIn).1 = .ok () :=
    run_revoke key_refreshClaims
  have hrefreshRevocation := transcript_exchanges (revoke alice.userId refreshClaims).run signedIn
  rw [hrefreshRevoked] at hrefreshRevocation
  obtain ⟨-, hothers⟩ := sign_out_is_final (d := lone) hrefreshRevocation
    (follows_exchanges _ signedIn) .start fun _ _ => List.not_mem_nil
  have hsame := hothers (steady_follows_exchanges _ signedIn) pair.access.text .access
  refine ⟨pair, hissue, haccess ▸ accepts_signedIn signedIn.drawn, hsignedOut, hvalidate, hexchange,
    hsame fun key hkey hcarries => ?_⟩
  rw [haccess] at hcarries
  obtain ⟨-, hown⟩ := claims_of_carries_sign hcarries
  obtain rfl := Except.ok.inj (key_accessClaims.symm.trans hown)
  exact absurd (revoked_refreshClaims.mp hkey) (by decide)

end AccessControl.Session
