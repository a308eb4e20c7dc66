import AccessControl.Proofs.Config.Lifetime
import AccessControl.Proofs.Session.Expiry
import AccessControl.Proofs.Session.Told
import AccessControl.Proofs.Store.Sound
import AccessControl.Proofs.World.Untrusted

/-! # Fresh tokens

A token that was just issued for the stamp of its user is good until its record expires, and for
this the cache is not needed: where the cache does not confirm the stamp or the key, the store
does.  So it is shown here of an outside whose cache may hold anything and answer anything
(`World.untrusted`), before the issuing, during it and after it.

An issuing ends as the storing of the record does (`ensures_issueAt`); if it fails, nothing was
stored and nothing was cached.  What a validation is told afterwards is true of the world, and this
decides it (`validate_of_truthful`).  The one thing that is in the way of a token is its expiry:
**if the lifetime leads to the end of the calendar or beyond, there is no token**, though the user
is known and the lifetime is one that the configuration accepts.
-/
namespace AccessControl

/-- The instants from one until another. -/
def Instant.Between (start stop t : Instant) : Prop := ¬t < start ∧ t < stop

namespace Session
open World Outside Program
variable {α β : Type} {d : Deployment} {subject : Token.Subject} {kind asked : Token.Kind}
  {refreshKey : Option TokenKey} {key : TokenKey} {issuedAt expiresAt : Instant} {w w₁ : World}
  {t : Log} {P : Instant → Prop} {claims : Token.Claims}

/-! ## Failing -/

/-- A request writes to the cache. -/
def Caches (r : Backend.Request) : Prop := ∃ key value seconds, r = .cacheSet key value seconds

/-- **A service that fails has cached nothing.** -/
def CachesAtLast (x : Service α) : Prop :=
  ∀ t failure, x.run.Transcript t (.error failure) → ∀ e ∈ t, ¬Caches e.request

theorem CachesAtLast.bind {x : Service α} {f : α → Service β}
    (hx : x.run.Asks fun r => ¬Caches r) (hf : ∀ a, CachesAtLast (f a)) :
    CachesAtLast (x >>= f) := by
  intro t failure ht e he
  rcases transcript_run_bind_iff.mp ht with ⟨t₁, a, t₂, rfl, h₁, h₂⟩ | ⟨_, -, h⟩
  · rcases List.mem_append.mp he with he | he
    · exact hx t₁ _ h₁ e he
    · exact hf a t₂ failure h₂ e he
  · exact hx t _ h e he

/-- What is done last is to cache the token. -/
theorem cachesAtLast_issue (d : Deployment) (subject : Token.Subject) (kind : Token.Kind)
    (refreshKey : Option TokenKey) : CachesAtLast (issue d subject kind refreshKey) := by
  refine .bind (asks_backend .fresh nofun).run_lift fun key => ?_
  refine .bind (asks_backend .now nofun).run_lift fun issuedAt => ?_
  split
  · intro t failure ht
    obtain ⟨rfl, -⟩ := transcript_run_throw_iff.mp ht
    exact List.forall_mem_nil _
  · refine .bind (asks_backend .fresh nofun).run_lift fun tokenId => ?_
    refine .bind (asks_backend (.sign _) nofun) fun text => ?_
    refine .bind (asks_backend (.createToken _) nofun) fun _ => ?_
    intro t failure ht
    rcases transcript_run_bind_iff.mp ht with ⟨_, _, _, -, -, h⟩ | ⟨_, -, h⟩
    · cases (transcript_run_pure_iff.mp h).2
    · obtain ⟨_, heq, -⟩ := transcript_run_lift_iff.mp h
      cases heq

/-! ## Issuing -/

/-- An issuing draws a key and reads the clock, which leaves the store and the signer alone. -/
theorem exists_issueAt {r : Except Failure Token.Issued}
    (ht : (issue d subject kind refreshKey).run.Transcript t r) (hf : untrusted.Follows w t w₁) :
    ∃ key issuedAt rest v, t = ⟨.fresh, key⟩ :: ⟨.now, issuedAt⟩ :: rest ∧ v.store = w.store ∧
      v.signer = w.signer ∧
      (issueAt d subject kind refreshKey key issuedAt).run.Transcript rest r ∧
      untrusted.Follows v rest w₁ := by
  rw [run_issue_eq] at ht
  obtain ⟨key, _, rfl, hreading⟩ := transcript_call_iff.mp ht
  obtain ⟨issuedAt, rest, rfl, hissuing⟩ := transcript_call_iff.mp hreading
  obtain ⟨v, hfresh, hf⟩ := follows_cons_iff.mp hf
  obtain ⟨v', hnow, hf⟩ := follows_cons_iff.mp hf
  obtain ⟨hstore, hsigner⟩ := kept_of_answers (r := .fresh) (fun _ => rfl) hfresh
  obtain ⟨hstore', hsigner'⟩ := kept_of_answers (r := .now) (fun _ => rfl) hnow
  exact ⟨key, issuedAt, rest, v', rfl, hstore'.trans hstore, hsigner'.trans hsigner, hissuing, hf⟩

/-- **An issuing whose expiry is in the calendar ends as the storing of the record does.** -/
theorem ensures_issueAt {key : Uuid}
    (hexpires : issuedAt.add? (d.tokens.lifetime kind) = some expiresAt) :
    untrusted.Ensures (issueAt d subject kind refreshKey key issuedAt).run w fun r w₁ =>
      w₁.signer = w.signer ∧
      ((∃ failure, w.store.createToken ⟨subject.userId, ⟨key⟩, expiresAt⟩ = .error failure ∧
          r = .error failure ∧ w₁.store = w.store) ∨
        ∃ tokenId, w.store.createToken ⟨subject.userId, ⟨key⟩, expiresAt⟩ = .ok w₁.store ∧
          r = .ok ⟨w.signer.sign
            (claimsFor d.tokens subject kind refreshKey ⟨key⟩ tokenId issuedAt expiresAt), ⟨key⟩,
            d.tokens.lifetime kind⟩) := by
  rw [issueAt, hexpires]
  dsimp only
  rw [ensures_run_bind, ensures_run_lift]
  refine ensures_untrusted_done (r := .fresh) rfl fun _ _ => ?_
  rw [answer_fresh]
  dsimp only
  rw [ensures_run_bind]
  refine ensures_untrusted_done (r := .sign _) rfl fun _ _ => ?_
  rw [answer_sign]
  dsimp only
  rw [ensures_run_bind]
  refine ensures_untrusted_createToken (fun _ _ store hstore => ?_) fun _ _ failure hfailure => ?_
  · dsimp only
    rw [ensures_run_bind, ensures_run_lift]
    refine ensures_untrusted_store fun _ _ => ?_
    exact ensures_run_pure.mpr ⟨rfl, .inr ⟨_, hstore, rfl⟩⟩
  · exact ⟨rfl, .inl ⟨failure, hfailure, rfl, rfl⟩⟩

/-! ## Validating -/

/-- What comes of presenting a token of a kind as one of the kind asked for. -/
def presented (kind : Token.Kind) (validated : Token.Validated) (asked : Token.Kind) :
    Except Failure Token.Validated :=
  if asked = kind then .ok validated
  else .error (.rejected (.wrongKind asked.name kind.name))

/-- What is issued is of no other kind than its own. -/
theorem checkClaims_claimsFor_of_ne (settings : Token.Settings) (tokenId : Uuid)
    (h : asked ≠ kind) :
    checkClaims settings
      (claimsFor settings subject kind refreshKey key tokenId issuedAt expiresAt) asked =
      .error (.wrongKind asked.name kind.name) := by
  have hname : kind.name ≠ asked.name := by
    cases kind <;> cases asked <;> first | exact absurd rfl h | decide
  simp only [checkClaims, claimsFor]
  rw [if_pos hname]

section Truthful
variable {user : UserId} {stamp : SecurityStamp} {e : Exchange Backend}

theorem showsStamp_of_truthful (hstored : w.store.stampOf user = some stamp)
    (he : Truthful P w e) : ShowsStamp user stamp e := by
  obtain ⟨r, a⟩ := e
  cases r with
  | findStamp owner =>
    cases a with
    | error failure => trivial
    | ok found =>
      rintro rfl
      obtain ⟨v, hstore, -, -, hanswer⟩ := he rfl
      have hfound : found = v.store.stampOf owner := Except.ok.inj hanswer
      rw [hfound, hstore, hstored]
  | _ => trivial

theorem showsKey_of_truthful (hrecorded : w.store.tokens.find? (user, key) = some expiresAt)
    (hP : ∀ now, P now → now < expiresAt) (he : Truthful P w e) :
    ShowsKey user key expiresAt e := by
  obtain ⟨r, a⟩ := e
  cases r with
  | now =>
    obtain ⟨v, -, -, hnow, hanswer⟩ := he rfl
    have hshown : a = v.now := hanswer
    exact hshown ▸ hP _ hnow
  | isTokenLive owner other now =>
    cases a with
    | error failure => trivial
    | ok live =>
      rintro rfl rfl hearly
      obtain ⟨v, hstore, -, -, hanswer⟩ := he rfl
      have hlive : live = v.store.isTokenLive owner other now := Except.ok.inj hanswer
      rw [hlive, Store.isTokenLive, hstore, hrecorded]
      exact decide_eq_true hearly
  | _ => trivial

theorem verdict_of_truthful {token : String} {verdict : Except Rejection Token.Claims}
    (he : Truthful P w ⟨.verify token, verdict⟩) :
    ∃ now, P now ∧ verdict = w.signer.verify now token := by
  obtain ⟨v, -, hsigner, hnow, hanswer⟩ := he rfl
  exact ⟨v.now, hnow, hsigner ▸ hanswer⟩

/-- A signed token whose times hold is verified. -/
theorem verified_of_truthful {verdict : Except Rejection Token.Claims}
    (hholds : ∀ now, P now → w.signer.checkClaims now claims = .ok ())
    (he : Truthful P w ⟨.verify (w.signer.sign claims), verdict⟩) : verdict = .ok claims := by
  obtain ⟨now, hnow, hverdict⟩ := verdict_of_truthful he
  rw [hverdict, Jwt.Signer.verify_sign, hholds now hnow]
  rfl

/-- **What a validation is told of the store and of the signer decides it**, whatever the cache
answers: a token that has a record, and the stamp of its user, is refused only for what the claims
say of its kind and its service. -/
theorem validate_of_truthful {r : Except Failure Token.Validated}
    (ht : (validate d (w.signer.sign claims) asked).run.Transcript t r)
    (htruth : ∀ e ∈ t, Truthful P w e)
    (hholds : ∀ now, P now → w.signer.checkClaims now claims = .ok ())
    (hP : ∀ now, P now → now < expiresAt) (huser : claims.userId = .ok user)
    (hstamp : claims.stamp = .ok stamp) (hkey : claims.key = .ok key)
    (hstored : w.store.stampOf user = some stamp)
    (hrecorded : w.store.tokens.find? (user, key) = some expiresAt) :
    r = ((checkClaims d.tokens claims asked).map fun _ => Token.Validated.mk user claims).mapError
      .rejected := by
  have hasks : ∀ e ∈ t, Looks e.request := asks_validate_looks d _ asked t r ht
  -- A lookup that is answered as a world answers it has not failed.
  have hadmits : Admits (fun _ => False) (· ∈ t) := by
    intro e failure he hcaching hfailed
    obtain ⟨v, -, -, -, hanswer⟩ := htruth e he hcaching
    exact (hasks e he).served failure v (hanswer ▸ hfailed)
  have hchecked : Learns (fun _ => False) (· ∈ t)
      (do checkStamp d user claims; checkKey d user claims)
      (Except.mapError Failure.rejected (.ok ())) :=
    (learns_checkStamp_of_shown hadmits
      (fun e he => showsStamp_of_truthful hstored (htruth e he)) hstamp).bind
    (learns_checkKey_of_shown hadmits
      (fun e he => showsKey_of_truthful hrecorded hP (htruth e he)) hkey)
  have hverified : ∀ c, ⟨.verify (w.signer.sign claims), .ok c⟩ ∈ t → c = claims :=
    fun c hc => Except.ok.inj (verified_of_truthful hholds (htruth _ hc))
  obtain ⟨verdict, rest, rfl, hends⟩ := concludes_validate ht hverified huser hchecked
  obtain rfl := verified_of_truthful hholds (htruth _ List.mem_cons_self)
  rw [hends.eq fun _ => id, outcome]
  cases checkClaims d.tokens claims asked <;> rfl

end Truthful

/-! ## Fresh tokens -/

/-- The claims hold from the issuing of a token to its expiry, for the signer of the service. -/
theorem checkClaims_of_unexpired {tokenId : Uuid} {now : Instant}
    (hissuer : d.tokens.issuer = w.signer.issuer)
    (haudience : d.tokens.audience = w.signer.audience)
    (hera : 0 ≤ issuedAt.nanos) (hnow : issuedAt.Between expiresAt now) :
    w.signer.checkClaims now
      (claimsFor d.tokens subject kind refreshKey key tokenId issuedAt expiresAt) = .ok () := by
  have hstart : 0 ≤ issuedAt.seconds := by
    rw [Int64.le_iff_toInt_le, Instant.toInt_seconds]
    exact Int.ediv_nonneg hera (by decide)
  have hbegun : issuedAt.seconds ≤ now.seconds := Instant.seconds_le_of_not_lt hnow.1
  have hends : now.seconds ≤ expiresAt.seconds :=
    Instant.seconds_le_of_not_lt (Int.not_lt.mpr (Int.le_of_lt hnow.2))
  exact (Jwt.Signer.checkClaims_iff ..).mpr ⟨Int64.le_trans (Int64.le_trans hstart hbegun) hends,
    hstart, hends, hbegun, hissuer, haudience⟩

/-- **As long as a token has its record, and its user the stamp, every validation before the expiry
comes out as the kind of the token says**, whatever the cache holds and answers. -/
theorem yields_validate {tokenId : Uuid} (hissuer : d.tokens.issuer = w.signer.issuer)
    (haudience : d.tokens.audience = w.signer.audience) (hlasts : issuedAt < expiresAt)
    (hera : 0 ≤ issuedAt.nanos) (hstored : w.store.stampOf subject.userId = some subject.stamp)
    (hrecorded : w.store.tokens.find? (subject.userId, key) = some expiresAt)
    (asked : Token.Kind) :
    (untrusted.within fun v => issuedAt.Between expiresAt v.now).Yields
      (validate d (w.signer.sign (claimsFor d.tokens subject kind refreshKey key tokenId issuedAt
        expiresAt)) asked).run w
      fun r _ => r = presented kind ⟨subject.userId, claimsFor d.tokens subject kind refreshKey key
        tokenId issuedAt expiresAt⟩ asked := by
  have hstart : issuedAt.Between expiresAt issuedAt := ⟨Int.lt_irrefl _, hlasts⟩
  refine ⟨fun t r w' ht hf => ?_, exists_follows_untrusted issuedAt hstart _ w⟩
  have hlooks : ∀ e ∈ t, CachesOnly e.request :=
    fun e he => (asks_validate_looks d _ asked t r ht e he).cachesOnly
  rw [validate_of_truthful ht (fun e => truthful_of_follows hf hlooks)
    (fun now => checkClaims_of_unexpired hissuer haudience hera) (fun now hnow => hnow.2)
    (userId_claimsFor ..) (stamp_claimsFor ..) (key_claimsFor ..) hstored hrecorded, presented]
  split
  · rename_i hkind
    rw [hkind, checkClaims_claimsFor]
    rfl
  · rename_i hother
    rw [checkClaims_claimsFor_of_ne d.tokens tokenId hother]
    rfl

/-- **Claims say what a token was issued with**: they are read back as it. -/
structure ReadsBack (subject : Token.Subject) (kind : Token.Kind) (refreshKey : Option TokenKey)
    (issued : Token.Issued) (claims : Token.Claims) : Prop where
  user : claims.userId = .ok subject.userId
  ofKind : claims.kind = .ok kind
  stamp : claims.stamp = .ok subject.stamp
  key : claims.key = .ok issued.key
  /-- Only an access token is linked. -/
  linked : claims.refreshKey = if kind = .access then refreshKey else none
  /-- The token lasts as long as its holder was told. -/
  lasts : claims.expiresAt.toInt - claims.issuedAt.toInt = issued.lifetime

theorem readsBack_claimsFor {tokenId : Uuid} {text : String}
    (hexpires : issuedAt.add? (d.tokens.lifetime kind) = some expiresAt) :
    ReadsBack subject kind refreshKey ⟨text, key, d.tokens.lifetime kind⟩
      (claimsFor d.tokens subject kind refreshKey key tokenId issuedAt expiresAt) where
  user := userId_claimsFor ..
  ofKind := kind_claimsFor ..
  stamp := stamp_claimsFor ..
  key := key_claimsFor ..
  linked := by
    cases kind with
    | access => exact refreshKey_claimsFor_access ..
    | refresh => exact refreshKey_claimsFor_refresh ..
  lasts := Instant.toInt_seconds_sub hexpires

/-- **A token was issued at an instant as it was asked for.**  It has a record, its claims are read
back as what it was issued with, and whatever the cache holds and answers from now on, every
validation before the expiry of the record comes out as the kind of the token says. -/
def IssuedAsAsked (d : Deployment) (subject : Token.Subject) (kind : Token.Kind)
    (refreshKey : Option TokenKey) (issuedAt : Instant) (issued : Token.Issued) (w : World) :
    Prop :=
  issued.lifetime = d.tokens.lifetime kind ∧
  ∃ expiresAt claims, issuedAt.add? issued.lifetime = some expiresAt ∧
    w.store.tokens.find? (subject.userId, issued.key) = some expiresAt ∧
    ReadsBack subject kind refreshKey issued claims ∧
    (0 ≤ issuedAt.nanos → ∀ asked,
      (untrusted.within fun v => issuedAt.Between expiresAt v.now).Yields
        (validate d issued.text asked).run w
        fun r _ => r = presented kind ⟨subject.userId, claims⟩ asked)

/-- Once the clock was read, an issuing for the stamp that its user has comes through, if the expiry
is in the calendar. -/
theorem issuedAsAsked_of_issueAt {key : Uuid} {r : Except Failure Token.Issued}
    (hlifetime : 0 < d.tokens.lifetime kind) (hissuer : d.tokens.issuer = w.signer.issuer)
    (haudience : d.tokens.audience = w.signer.audience)
    (hexpires : issuedAt.add? (d.tokens.lifetime kind) = some expiresAt)
    (hstored : w.store.stampOf subject.userId = some subject.stamp)
    (ht : (issueAt d subject kind refreshKey key issuedAt).run.Transcript t r)
    (hf : untrusted.Follows w t w₁) :
    ∃ issued, r = .ok issued ∧ IssuedAsAsked d subject kind refreshKey issuedAt issued w₁ := by
  obtain ⟨stored, hfind, -⟩ := Option.map_eq_some_iff.mp hstored
  have hcontains : w.store.users.contains subject.userId = true := Table.contains_of_find? hfind
  obtain ⟨hsigner, ⟨failure, hcreate, -⟩ | ⟨tokenId, hcreate, rfl⟩⟩ :=
    ensures_issueAt hexpires t r w₁ ht hf
  · rw [Store.createToken, if_pos hcontains] at hcreate
    cases hcreate
  · have hstore := Store.createToken_ok hcreate
    have hrecorded : w₁.store.tokens.find? (subject.userId, ⟨key⟩) = some expiresAt := by
      rw [hstore]
      exact (Table.find?_insert ..).trans (if_pos rfl)
    have hstored₁ : w₁.store.stampOf subject.userId = some subject.stamp := by
      rw [hstore]
      exact hstored
    refine ⟨_, rfl, rfl, expiresAt,
      claimsFor d.tokens subject kind refreshKey ⟨key⟩ tokenId issuedAt expiresAt, hexpires,
      hrecorded, readsBack_claimsFor hexpires, fun hera asked => ?_⟩
    rw [← hsigner]
    exact yields_validate (hsigner ▸ hissuer) (hsigner ▸ haudience)
      (Instant.lt_of_add? hlifetime hexpires) hera hstored₁ hrecorded asked

/-- Once the clock was read, an issuing whose expiry is in the calendar fails for unknown users
only. -/
theorem error_of_issueAt_iff {key : Uuid} {r : Except Failure Token.Issued}
    (hexpires : issuedAt.add? (d.tokens.lifetime kind) = some expiresAt)
    (ht : (issueAt d subject kind refreshKey key issuedAt).run.Transcript t r)
    (hf : untrusted.Follows w t w₁) (failure : Failure) :
    r = .error failure ↔
      failure = subject.userId.missing ∧ w.store.stampOf subject.userId = none := by
  obtain ⟨-, ⟨failure', hcreate, rfl, -⟩ | ⟨tokenId, hcreate, rfl⟩⟩ :=
    ensures_issueAt hexpires t r w₁ ht hf
  · rw [Store.createToken] at hcreate
    split at hcreate
    · cases hcreate
    · rename_i hcontains
      obtain rfl := Except.error.inj hcreate
      have hnone : w.store.stampOf subject.userId = none :=
        Option.map_eq_none_iff.mpr (Option.not_isSome_iff_eq_none.mp hcontains)
      exact ⟨fun h => ⟨(Except.error.inj h).symm, hnone⟩, fun h => h.1 ▸ rfl⟩
  · obtain ⟨stored, hfind⟩ := Table.contains_iff.mp (Store.userExists_of_createToken hcreate)
    have hstamp : w.store.stampOf subject.userId = some stored.stamp :=
      Option.map_eq_some_iff.mpr ⟨stored, hfind, rfl⟩
    rw [hstamp]
    constructor
    · intro h
      cases h
    · rintro ⟨-, h⟩
      cases h

/-- An issuing that fails has left the store as it was. -/
theorem store_of_issueAt_error {key : Uuid} {failure : Failure}
    (ht : (issueAt d subject kind refreshKey key issuedAt).run.Transcript t (.error failure))
    (hf : untrusted.Follows w t w₁) : w₁.store = w.store := by
  cases hexpires : issuedAt.add? (d.tokens.lifetime kind) with
  | none =>
    rw [issueAt, hexpires] at ht
    obtain ⟨rfl, -⟩ := transcript_run_throw_iff.mp ht
    rw [follows_nil_iff.mp hf]
  | some expiresAt =>
    obtain ⟨-, ⟨_, -, -, hstore⟩ | ⟨_, -, hok⟩⟩ := ensures_issueAt hexpires t _ w₁ ht hf
    · exact hstore
    · cases hok

/-- **A fresh token validates whatever the cache holds, if there is one.**  An issuing reads the
clock once.  If the lifetime leads from there to the end of the calendar or beyond, it fails, also
for a user who is known with the stamp.  Otherwise it fails for unknown users only, and for the
stamp of a user a token is issued as it was asked for.  If an issuing fails, nothing was stored, and
nothing was written to the cache. -/
theorem fresh_tokens_validate (w : World) (d : Deployment) (subject : Token.Subject)
    (kind : Token.Kind) (refreshKey : Option TokenKey) (hlifetime : 0 < d.tokens.lifetime kind)
    (hissuer : d.tokens.issuer = w.signer.issuer)
    (haudience : d.tokens.audience = w.signer.audience) :
    (∃ t r w₁, (issue d subject kind refreshKey).run.Transcript t r ∧ untrusted.Follows w t w₁) ∧
    ∀ t r w₁, (issue d subject kind refreshKey).run.Transcript t r → untrusted.Follows w t w₁ →
      (∀ failure, r = .error failure → w₁.store = w.store ∧ ∀ e ∈ t, ¬Caches e.request) ∧
      ∃ issuedAt, ⟨.now, issuedAt⟩ ∈ t ∧
        (Instant.calendarEnd * Instant.second ≤
            issuedAt.nanos + d.tokens.lifetime kind * Instant.second →
          r = .error expiryOutOfRange) ∧
        (issuedAt.nanos + d.tokens.lifetime kind * Instant.second <
            Instant.calendarEnd * Instant.second →
          (∀ failure, r = .error failure ↔
            failure = subject.userId.missing ∧ w.store.stampOf subject.userId = none) ∧
          (w.store.stampOf subject.userId = some subject.stamp →
            ∃ issued, r = .ok issued ∧
              IssuedAsAsked d subject kind refreshKey issuedAt issued w₁)) := by
  constructor
  · obtain ⟨t, r, w₁, ht, hf⟩ := exists_follows_untrusted (P := fun _ => True) w.now trivial
      (issue d subject kind refreshKey).run w
    exact ⟨t, r, w₁, ht, hf.of_within⟩
  intro t r w₁ ht hf
  have hcached := cachesAtLast_issue d subject kind refreshKey t
  obtain ⟨key, issuedAt, rest, v, rfl, hstore, hsigner, hrest, hfrest⟩ := exists_issueAt ht hf
  refine ⟨fun failure hfailure => ?_, issuedAt, by simp, fun hbeyond => ?_, fun hwithin => ?_⟩
  · subst hfailure
    exact ⟨(store_of_issueAt_error hrest hfrest).trans hstore, hcached failure ht⟩
  · rw [← Instant.add?_eq_none_iff (Int.le_of_lt hlifetime)] at hbeyond
    rw [issueAt, hbeyond] at hrest
    exact (transcript_run_throw_iff.mp hrest).2
  · have hsome : issuedAt.add? (d.tokens.lifetime kind) ≠ none := by
      rw [Ne, Instant.add?_eq_none_iff (Int.le_of_lt hlifetime)]
      exact Int.not_le.mpr hwithin
    obtain ⟨expiresAt, hexpires⟩ := Option.ne_none_iff_exists'.mp hsome
    rw [← hstore]
    exact ⟨error_of_issueAt_iff hexpires hrest hfrest, fun hstored =>
      issuedAsAsked_of_issueAt hlifetime (hsigner ▸ hissuer) (hsigner ▸ haudience) hexpires hstored
        hrest hfrest⟩

/-! ## One user -/

/-- A linked access token of the one user, and what becomes of it: whatever the cache does, it is
accepted for a day, and refused as a refresh token. -/
theorem fresh_token_of_lone_validates :
    0 < lone.tokens.lifetime .access ∧ lone.tokens.issuer = oneUser.signer.issuer ∧
    lone.tokens.audience = oneUser.signer.audience ∧
    ∃ issued claims, World.run (issue lone alice .access (some ⟨.repeating 9⟩)).run oneUser =
        (.ok issued, afterIssue lone alice.userId ⟨.repeating 1⟩ accessUntil oneUser) ∧
      ReadsBack alice .access (some ⟨.repeating 9⟩) issued claims ∧
      ∀ asked, (untrusted.within fun v => oneUser.now.Between accessUntil v.now).Yields
        (validate lone issued.text asked).run
        (afterIssue lone alice.userId ⟨.repeating 1⟩ accessUntil oneUser)
        fun r _ => r = presented .access ⟨alice.userId, claims⟩ asked := by
  refine ⟨by decide, rfl, rfl, ?_⟩
  have hday : oneUser.now.add? (lone.tokens.lifetime .access) = some accessUntil := rfl
  obtain ⟨issued, hrun, -, -⟩ := run_issue lone alice .access (some ⟨.repeating 9⟩) hday rfl
  obtain ⟨ht, hf⟩ := transcript_and_follows_of_run hrun
  obtain ⟨-, issuedAt, hnow, -, hissued⟩ :=
    (fresh_tokens_validate oneUser lone alice .access (some ⟨.repeating 9⟩) (by decide) rfl rfl).2
      _ _ _ ht (follows_untrusted_of_faultless hf)
  obtain rfl := eq_now_of_mem_exchanges hnow
  obtain ⟨_, hok, hlifetime, expiresAt, claims, hexpires, -, hclaims, hvalid⟩ :=
    (hissued (by decide)).2 rfl
  obtain rfl := Except.ok.inj hok
  rw [hlifetime] at hexpires
  obtain rfl := Option.some.inj (hexpires.symm.trans hday)
  exact ⟨issued, claims, hrun, hclaims, hvalid (by decide)⟩

/-- A deployment whose access tokens last as long as a configuration may have them last. -/
def lasting : Deployment :=
  ⟨.empty, 60, { issuer := "", audience := "", accessLifetime := Config.maxLifetime }⟩

/-- **There is a known user with the stamp for whom no token is issued.** -/
theorem no_token_for_known_user :
    0 < lasting.tokens.lifetime .access ∧ lasting.tokens.issuer = oneUser.signer.issuer ∧
    lasting.tokens.audience = oneUser.signer.audience ∧
    oneUser.store.stampOf alice.userId = some alice.stamp ∧
    (World.run (issue lasting alice .access none).run oneUser).1 = .error expiryOutOfRange :=
  ⟨by decide, rfl, rfl, rfl, rfl⟩

end Session
end AccessControl
