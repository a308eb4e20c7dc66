import AccessControl.Proofs.Session.Rotation
import AccessControl.Proofs.World.Faultless

/-! # Sessions without faults

A token that is issued without faults is signed with the claims it was asked for, and its record
and its cached item are there afterwards (`run_issue`).  A rotation leaves the user with the new
stamp and with no token (`run_rotateStamp`).  A token that has the stamp of its user is accepted
exactly while its times hold and its key is known to be live, by a record that has not expired or
by what the cache shows (`run_validate_iff`).
-/
namespace AccessControl.Session
open World Outside Program
variable {d : Deployment} {user : UserId} {key : TokenKey} {stamp : SecurityStamp} {w : World}
  {claims : Token.Claims}

/-! ## Identifiers -/

theorem answer_fresh {w : World} :
    World.answer .fresh w = (w.supply w.drawn, { w with drawn := w.drawn + 1 }) := rfl

/-- **Without faults the identifiers that are given are the next of the supply.** -/
theorem identifiers_of_follows {t : Log} {w' : World} (h : faultless.Follows w t w') :
    w'.supply = w.supply ∧ ∃ n, w'.drawn = w.drawn + n ∧
      identifiers t = (List.range' w.drawn n).map w.supply := by
  induction h with
  | nil => exact ⟨rfl, 0, rfl, rfl⟩
  | @cons w m w' e t h _ ih =>
    obtain ⟨hsupply, n, hdrawn, hgiven⟩ := ih
    obtain ⟨r, a⟩ := e
    obtain ⟨hanswer, rfl⟩ := h
    by_cases hr : r = .fresh
    · subst hr
      rw [answer_fresh] at hanswer hsupply hdrawn hgiven
      obtain rfl : a = w.supply w.drawn := hanswer
      refine ⟨hsupply, n + 1, by rw [hdrawn, Nat.add_right_comm, Nat.add_assoc], ?_⟩
      rw [List.range'_succ, List.map_cons, ← hgiven]
      rfl
    · obtain ⟨hsupply', hdrawn'⟩ := given_answer (w := w) hr
      rw [hsupply'] at hsupply hgiven
      rw [hdrawn'] at hdrawn hgiven
      refine ⟨hsupply, n, hdrawn, ?_⟩
      rw [← hgiven, identifiers, List.filterMap_cons_none, ← identifiers]
      split
      · rename_i heq
        exact absurd (congrArg Exchange.request heq) hr
      · rfl

/-- Where the supply is not drawn from, no identifier is given. -/
theorem identifiers_eq_nil {t : Log} {w' : World} (h : faultless.Follows w t w')
    (hdrawn : w'.drawn = w.drawn) : identifiers t = [] := by
  obtain ⟨-, n, hn, hgiven⟩ := identifiers_of_follows h
  obtain rfl : n = 0 := by omega
  exact hgiven

/-- As long as the supply lasts, identifiers are given afresh to the one user. -/
theorem fresh_of_drawn {t : Log} (h : faultless.Follows oneUser t w) (hdrawn : w.drawn ≤ 16) :
    Fresh oneUser t := by
  obtain ⟨-, n, hn, hgiven⟩ := identifiers_of_follows h
  have hle : n ≤ 15 := by
    have hstart : oneUser.drawn = 1 := rfl
    omega
  have hgiven' : identifiers t = (List.range' 1 n).map Uuid.repeating := hgiven
  have hdistinct : ∀ n ≤ 15, ((List.range' 1 n).map Uuid.repeating).Nodup := by decide
  have hnew : ∀ n ≤ 15, Uuid.repeating 0 ∉ (List.range' 1 n).map Uuid.repeating := by decide
  refine ⟨hgiven' ▸ hdistinct n hle, fun user stamp hstamp => ?_⟩
  obtain rfl := stamp_of_oneUser hstamp
  exact hgiven' ▸ hnew n hle

/-! ## Issuing -/

/-- The world after a token was issued. -/
def afterIssue (d : Deployment) (user : UserId) (key : TokenKey) (expiresAt : Instant)
    (w : World) : World :=
  { w with
    store := { w.store with tokens := w.store.tokens.insert (user, key) expiresAt }
    cache := w.cache.set w.now (CacheKey.tokenValidity user key).text
      (Json.write (Cached.LiveToken.mk user key)) d.cacheSeconds
    drawn := w.drawn + 2 }

theorem answer_now {w : World} : World.answer .now w = (w.now, w) := rfl

theorem answer_sign {w : World} :
    World.answer (.sign claims) w = (.ok (w.signer.sign claims), w) := rfl

theorem answer_createToken {record : Token.Record} {w : World}
    (h : w.store.users.contains record.userId = true) :
    World.answer (.createToken record) w = (.ok (), { w with store := { w.store with
      tokens := w.store.tokens.insert (record.userId, record.key) record.expiresAt } }) := by
  show World.write (·.createToken record) w = _
  rw [World.write, World.writeGiving, Store.createToken, if_pos h]
  rfl

/-- A token that was just issued has a live record, if it lasts at all. -/
theorem isTokenLive_afterIssue {expiresAt : Instant} (h : w.now < expiresAt) :
    (afterIssue d user key expiresAt w).store.isTokenLive user key w.now = true := by
  rw [Store.isTokenLive, afterIssue, Table.find?_insert, if_pos rfl]
  exact decide_eq_true h

/-- **A token that is issued without faults** has the next two identifiers as its key and its
own number. -/
theorem run_issue (d : Deployment) (subject : Token.Subject) (kind : Token.Kind)
    (refreshKey : Option TokenKey) {expiresAt : Instant}
    (hexpires : w.now.add? (d.tokens.lifetime kind) = some expiresAt)
    (huser : w.store.users.contains subject.userId = true) :
    ∃ issued, World.run (issue d subject kind refreshKey).run w =
        (.ok issued, afterIssue d subject.userId ⟨w.supply w.drawn⟩ expiresAt w) ∧
      issued.key = ⟨w.supply w.drawn⟩ ∧
      issued.text = w.signer.sign (claimsFor d.tokens subject kind refreshKey ⟨w.supply w.drawn⟩
        (w.supply (w.drawn + 1)) w.now expiresAt) := by
  let issued : Token.Issued :=
    ⟨w.signer.sign (claimsFor d.tokens subject kind refreshKey ⟨w.supply w.drawn⟩
      (w.supply (w.drawn + 1)) w.now expiresAt), ⟨w.supply w.drawn⟩, d.tokens.lifetime kind⟩
  refine ⟨issued, ?_, rfl, rfl⟩
  suffices h : faultless.Ensures (issue d subject kind refreshKey).run w fun r w' =>
      (r, w') = (.ok issued, afterIssue d subject.userId ⟨w.supply w.drawn⟩ expiresAt w) from
    of_ensures_faultless h
  rw [issue_eq, ensures_run_bind, ensures_run_lift]
  refine ensures_faultless_request (r := .fresh) ?_
  rw [answer_fresh]
  dsimp only
  rw [issueWith, ensures_run_bind, ensures_run_lift]
  refine ensures_faultless_request (r := .now) ?_
  rw [answer_now]
  dsimp only
  rw [hexpires]
  dsimp only
  rw [ensures_run_bind, ensures_run_lift]
  refine ensures_faultless_request (r := .fresh) ?_
  rw [answer_fresh]
  dsimp only
  rw [ensures_run_bind]
  refine ensures_faultless_request (r := .sign _) ?_
  rw [answer_sign]
  dsimp only
  rw [ensures_run_bind]
  refine ensures_faultless_request (r := .createToken _) ?_
  rw [answer_createToken huser]
  dsimp only
  rw [ensures_run_bind, ensures_run_lift, Cached.store, Cached.write, Backend.request_eq,
    ensures_bind]
  refine ensures_faultless_request (r := .cacheSet _ _ _) ?_
  exact ensures_pure.mpr (ensures_run_pure.mpr rfl)

/-- A refresh token has the first two of the next identifiers, and the access token that is linked
to it the two after. -/
theorem run_issuePair {subject : Token.Subject} {refreshUntil accessUntil : Instant}
    (hrefresh : w.now.add? d.tokens.refreshLifetime = some refreshUntil)
    (haccess : w.now.add? d.tokens.accessLifetime = some accessUntil)
    (huser : w.store.users.contains subject.userId = true) :
    ∃ pair, World.run (issuePair d subject).run w = (.ok pair,
        afterIssue d subject.userId ⟨w.supply (w.drawn + 2)⟩ accessUntil
          (afterIssue d subject.userId ⟨w.supply w.drawn⟩ refreshUntil w)) ∧
      pair.refresh.text = w.signer.sign (claimsFor d.tokens subject .refresh none
        ⟨w.supply w.drawn⟩ (w.supply (w.drawn + 1)) w.now refreshUntil) ∧
      pair.access.text = w.signer.sign (claimsFor d.tokens subject .access
        (some ⟨w.supply w.drawn⟩) ⟨w.supply (w.drawn + 2)⟩ (w.supply (w.drawn + 3)) w.now
        accessUntil) := by
  obtain ⟨refresh, hfirst, hkey, hrefreshText⟩ := run_issue d subject .refresh none hrefresh huser
  obtain ⟨access, hsecond, -, haccessText⟩ :=
    run_issue (w := afterIssue d subject.userId ⟨w.supply w.drawn⟩ refreshUntil w) d subject
      .access (some refresh.key) haccess huser
  refine ⟨⟨access, refresh⟩, ?_, hrefreshText, ?_⟩
  · rw [issuePair, run_bind_of_ok hfirst, run_bind_of_ok hsecond]
    rfl
  · rw [← hkey]
    exact haccessText

/-- A deployment without permissions, whose tokens name no service. -/
def lone : Deployment := ⟨.empty, 60, { issuer := "", audience := "" }⟩

/-- Until when a refresh token lasts that is issued at the beginning of time. -/
def refreshUntil : Instant := ⟨2592000 * Instant.second, by decide, by decide⟩

/-- Until when an access token lasts that is issued at the beginning of time. -/
def accessUntil : Instant := ⟨86400 * Instant.second, by decide, by decide⟩

/-- What the first refresh token of a user says. -/
def refreshClaims : Token.Claims :=
  claimsFor lone.tokens alice .refresh none ⟨.repeating 1⟩ (.repeating 2) oneUser.now refreshUntil

/-- What the access token says that is linked to it. -/
def accessClaims : Token.Claims :=
  claimsFor lone.tokens alice .access (some ⟨.repeating 1⟩) ⟨.repeating 3⟩ (.repeating 4)
    oneUser.now accessUntil

/-- The world after the user was issued both. -/
def signedIn : World :=
  afterIssue lone alice.userId ⟨.repeating 3⟩ accessUntil
    (afterIssue lone alice.userId ⟨.repeating 1⟩ refreshUntil oneUser)

theorem key_refreshClaims : refreshClaims.key = .ok ⟨.repeating 1⟩ := key_claimsFor ..

theorem key_accessClaims : accessClaims.key = .ok ⟨.repeating 3⟩ := key_claimsFor ..

theorem run_issuePair_oneUser :
    ∃ pair, World.run (issuePair lone alice).run oneUser = (.ok pair, signedIn) ∧
      pair.refresh.text = oneUser.signer.sign refreshClaims ∧
      pair.access.text = oneUser.signer.sign accessClaims :=
  run_issuePair rfl rfl rfl

/-! ## Exchanging a refresh token -/

/-- **Whoever presents a refresh token that is valid is issued an access token with the stamp that
the user has by then**, which is linked to it. -/
theorem run_exchange {expiresAt : Instant} (hkey : claims.key = .ok key)
    (hstored : w.store.stampOf user = some stamp)
    (hexpires : w.now.add? d.tokens.accessLifetime = some expiresAt)
    (huser : w.store.users.contains user = true) :
    ∃ issued, World.run (exchange d ⟨user, claims⟩).run w =
        (.ok issued, afterIssue d user ⟨w.supply w.drawn⟩ expiresAt w) ∧
      issued.key = ⟨w.supply w.drawn⟩ ∧
      issued.text = w.signer.sign (claimsFor d.tokens ⟨user, stamp⟩ .access (some key)
        ⟨w.supply w.drawn⟩ (w.supply (w.drawn + 1)) w.now expiresAt) := by
  have hfind : World.run (Backend.findStamp user).run w = (.ok (some stamp), w) := by
    rw [← hstored]
    rfl
  rw [exchange, hkey, refusing, pure_bind, run_bind_of_ok hfind]
  exact run_issue d ⟨user, stamp⟩ .access (some key) hexpires huser

/-! ## Revoking -/

/-- **Without faults every key is revoked.** -/
theorem ensures_revokeKeys_ok (keys : List TokenKey) :
    faultless.Ensures (revokeKeys user keys).run w fun r _ => r = .ok () := by
  induction keys generalizing w with
  | nil => exact ensures_run_pure.mpr rfl
  | cons key keys ih =>
    have hfirst : faultless.Ensures (revokeKey user key).run w fun r _ => r = .ok () := by
      rw [revokeKey, ensures_run_bind, ensures_run_outcome]
      refine ensures_faultless_request (r := .deleteToken user key) ?_
      dsimp only
      rw [ensures_run_bind, ensures_run_lift]
      refine ensures_faultless_remove ?_
      dsimp only
      rw [ensures_run_bind, ensures_run_conclude]
      exact ensures_run_pure.mpr rfl
    rw [revokeKeys, ensures_run_bind, ensures_run_outcome]
    refine hfirst.mono fun first v hfirst => ?_
    subst hfirst
    dsimp only
    rw [ensures_run_bind, ensures_run_outcome]
    refine ih.mono fun others v' hothers => ?_
    subst hothers
    dsimp only
    rw [ensures_run_bind, ensures_run_conclude]
    exact ensures_run_conclude.mpr rfl

theorem run_revoke {own : TokenKey} (hown : claims.key = .ok own) :
    (World.run (revoke user claims).run w).1 = .ok () := by
  rw [revoke, hown]
  exact of_ensures_faultless (ensures_revokeKeys_ok _)

/-! ## Rotating -/

theorem ensures_faultless_updateStamp {store : Store} {Q : Except Failure Unit → World → Prop}
    (hstore : w.store.updateStamp user stamp = .ok store) (h : Q (.ok ()) { w with store }) :
    faultless.Ensures (Backend.updateStamp user stamp).run w Q := by
  have hanswer : World.answer (.updateStamp user stamp) w = (.ok (), { w with store }) := by
    show World.write (·.updateStamp user stamp) w = _
    rw [World.write, World.writeGiving, hstore]
    rfl
  refine ensures_faultless_request (r := .updateStamp user stamp) ?_
  rw [hanswer]
  exact h

theorem ensures_writeStamp_ok {store : Store}
    (hstore : w.store.updateStamp user stamp = .ok store) :
    faultless.Ensures (writeStamp user stamp).run w fun r w' =>
      r = .ok () ∧ ∃ cache, w' = { w with store, cache } := by
  rw [writeStamp, ensures_run_bind, ensures_run_lift]
  refine ensures_faultless_remove ?_
  dsimp only
  rw [ensures_run_bind, ensures_run_outcome]
  refine ensures_faultless_updateStamp hstore ?_
  dsimp only
  rw [ensures_run_bind, ensures_run_lift]
  refine ensures_faultless_remove ?_
  exact ensures_run_conclude.mpr ⟨rfl, _, rfl⟩

theorem ensures_forgetTokens_ok :
    faultless.Ensures (forgetTokens user).run w fun r w' =>
      r = .ok () ∧ ∃ cache, w' = { w with store := (w.store.deleteTokens user).2, cache } := by
  rw [forgetTokens, ensures_run_bind, ensures_run_outcome]
  refine ensures_faultless_request (r := .deleteTokens user) ?_
  dsimp only
  rw [ensures_run_bind, ensures_run_lift]
  refine ensures_faultless_remove ?_
  dsimp only
  rw [ensures_run_bind, ensures_run_conclude]
  exact ensures_run_pure.mpr ⟨rfl, _, rfl⟩

/-- Once a rotation has drawn the new stamp, it writes it and removes the records of the user. -/
theorem run_afterDraw {store : Store} (hstore : w.store.updateStamp user stamp = .ok store) :
    ∃ cache, World.run (do
        writeStamp user stamp
        forgetTokens user
        return stamp : Service SecurityStamp).run w =
      (.ok stamp, { w with store := (store.deleteTokens user).2, cache }) := by
  suffices h : faultless.Ensures (do
      writeStamp user stamp
      forgetTokens user
      return stamp : Service SecurityStamp).run w fun r w' => ∃ cache,
        (r, w') = (.ok stamp, { w with store := (store.deleteTokens user).2, cache }) from
    of_ensures_faultless h
  rw [ensures_run_bind]
  refine (ensures_writeStamp_ok hstore).mono fun r v hr => ?_
  obtain ⟨rfl, cache, rfl⟩ := hr
  dsimp only
  rw [ensures_run_bind]
  refine ensures_forgetTokens_ok.mono fun r v hr => ?_
  obtain ⟨rfl, cache', rfl⟩ := hr
  exact ensures_run_pure.mpr ⟨cache', rfl⟩

/-- **Without faults a rotation writes the next identifier and removes the records of the user.** -/
theorem run_rotateStamp {store : Store}
    (hstore : w.store.updateStamp user ⟨w.supply w.drawn⟩ = .ok store) :
    ∃ cache, World.run (rotateStamp user).run w = (.ok ⟨w.supply w.drawn⟩,
      { w with store := (store.deleteTokens user).2, drawn := w.drawn + 1, cache }) := by
  have hdraw : World.run (liftM Backend.fresh : Service Uuid).run w =
      (.ok (w.supply w.drawn), { w with drawn := w.drawn + 1 }) := rfl
  rw [rotateStamp_eq, run_bind_of_ok hdraw]
  exact run_afterDraw hstore

/-! ## Validating -/

/-- **A key is known to be live**: by a record that has not expired, or by the cache. -/
def KnownLive (user : UserId) (key : TokenKey) (w : World) : Prop :=
  (∃ item : Cached.LiveToken, (w.cache.seen w.now (CacheKey.tokenValidity user key).text).bind
    Json.decode? = some item) ∨ w.store.isTokenLive user key w.now = true

theorem KnownLive.of_sameFor {w' : World} (h : SameFor (.tokenValidity user key) w w') :
    KnownLive user key w' ↔ KnownLive user key w := by
  rw [KnownLive, KnownLive, h.store, h.now, h.seen]

theorem allowsStamp_leavesShown :
    AllowsStamp (LeavesShown (.tokenValidity user key)) user where
  get := trivial
  delete htext := nomatch CacheKey.text_injective htext
  find := trivial
  set _ _ htext := nomatch CacheKey.text_injective htext

/-- The stamp of a user passes its check, whatever is cached. -/
theorem ensures_checkStamp_of_stored (key : TokenKey) (hstamp : claims.stamp = .ok stamp)
    (hstored : w.store.stampOf user = some stamp) :
    faultless.Ensures (checkStamp d user claims).run w fun r w' =>
      r = .ok () ∧ SameFor (.tokenValidity user key) w w' := by
  have hasks : AllowsStamp (LeavesShown (.tokenValidity user key)) user := allowsStamp_leavesShown
  have hread : faultless.Ensures (Cached.stamp user) w fun _ v =>
      SameFor (.tokenValidity user key) w v := ensures_sameFor (asks_read hasks.get hasks.delete)
  rw [checkStamp, hstamp, refusing, pure_bind, ensures_run_bind, ensures_run_lift]
  refine hread.mono fun cached? v hv => ?_
  dsimp only
  split
  · exact ensures_run_pure.mpr ⟨rfl, hv⟩
  · rw [ensures_run_bind]
    refine ensures_faultless_request (r := .findStamp user) ?_
    have hfound : (World.answer (.findStamp user) v).1 = .ok (some stamp) := by
      rw [← hstored, ← hv.store]
      rfl
    rw [hfound]
    dsimp only
    rw [if_pos rfl, ensures_run_lift]
    refine (ensures_sameFor (asks_store (hasks.set stamp d.cacheSeconds))).mono fun _ v' hv' => ?_
    exact ⟨rfl, hv.trans hv'⟩

/-- **A key passes its check exactly if it is known to be live.** -/
theorem ensures_checkKey_iff (hkey : claims.key = .ok key) :
    faultless.Ensures (checkKey d user claims).run w fun r _ =>
      (r = .ok () ↔ KnownLive user key w) := by
  rw [checkKey, hkey, refusing, pure_bind, ensures_run_bind, ensures_run_lift, Cached.isLive,
    ensures_bind]
  refine ensures_faultless_read.mono fun item? v hv => ensures_pure.mpr ?_
  obtain ⟨rfl, hstore, hnow⟩ := hv
  cases hshown : (w.cache.seen w.now (CacheKey.tokenValidity user key).text).bind
      (Json.decode? (α := Cached.LiveToken)) with
  | some item =>
    dsimp only [Option.isSome]
    rw [if_pos rfl]
    exact ensures_run_pure.mpr (iff_of_true rfl (.inl ⟨item, hshown⟩))
  | none =>
    dsimp only [Option.isSome]
    rw [if_neg Bool.false_ne_true, ensures_run_bind, ensures_run_lift]
    refine ensures_faultless_request (r := .now) ?_
    dsimp only
    rw [ensures_run_bind]
    refine ensures_faultless_request (r := .isTokenLive user key _) ?_
    have hlive : KnownLive user key w ↔ w.store.isTokenLive user key w.now = true := by
      rw [KnownLive, hshown]
      simp
    have hfound : (World.answer (.isTokenLive user key (World.answer .now v).1)
        (World.answer .now v).2).1 = .ok (w.store.isTokenLive user key w.now) := by
      rw [← hstore, ← hnow]
      rfl
    rw [hfound, hlive]
    dsimp only
    split
    · rename_i h
      rw [ensures_run_lift]
      exact fun _ _ _ _ _ => iff_of_true rfl h
    · rename_i h
      exact ensures_run_throw.mpr (iff_of_false (by simp) h)

/-- **A validation only looks things up and caches them.** -/
theorem asks_validate_looks (d : Deployment) (token : String) (kind : Token.Kind) :
    (validate d token kind).run.Asks Looks :=
  asks_validate (P := Looks) trivial
    (fun _ => ⟨trivial, trivial, trivial, fun _ _ => trivial⟩)
    (fun _ _ => ⟨trivial, trivial, trivial, fun _ => trivial, fun _ => trivial⟩) d kind

/-- A validation changes the cache at the most. -/
theorem run_validate_cachesOnly (d : Deployment) (token : String) (kind : Token.Kind) (w : World) :
    ∃ cache, (World.run (validate d token kind).run w).2 = { w with cache } :=
  of_ensures_faultless
    (ensures_cachesOnly ((asks_validate_looks d token kind).mono fun _ hr => hr.cachesOnly))

/-- **Without faults, a signed token with the stamp of its user is accepted exactly if its times
hold and its key is known to be live.** -/
theorem run_validate_iff {kind : Token.Kind} (hclaims : checkClaims d.tokens claims kind = .ok ())
    (huser : claims.userId = .ok user) (hstamp : claims.stamp = .ok stamp)
    (hkey : claims.key = .ok key) (hstored : w.store.stampOf user = some stamp) :
    (World.run (validate d (w.signer.sign claims) kind).run w).1 = .ok ⟨user, claims⟩ ↔
      w.signer.checkClaims w.now claims = .ok () ∧ KnownLive user key w := by
  rw [validate_run_eq, run_call, answer_verify, Jwt.Signer.verify_sign]
  cases hchecked : w.signer.checkClaims w.now claims with
  | error rejection =>
    have hrefused : (World.run (validateVerified d kind (.error rejection)).run w).1 =
      .error (.rejected rejection) := rfl
    refine iff_of_false (fun h => ?_) fun h => ?_
    · cases hrefused.symm.trans h
    · cases h.1
  | ok _ =>
    rw [and_iff_right rfl]
    suffices haccepts : faultless.Ensures (validateVerified d kind (.ok claims)).run w fun r _ =>
        r = .ok ⟨user, claims⟩ ↔ KnownLive user key w from of_ensures_faultless haccepts
    rw [validateVerified, hclaims, huser, refusing, refusing, pure_bind, pure_bind,
      ensures_run_bind]
    refine (ensures_checkStamp_of_stored key hstamp hstored).mono fun r v hr => ?_
    obtain ⟨rfl, hv⟩ := hr
    dsimp only
    rw [ensures_run_bind, ← KnownLive.of_sameFor hv]
    refine (ensures_checkKey_iff hkey).mono fun r v' hr => ?_
    cases r with
    | error failure =>
      refine iff_of_false (fun h => ?_) fun h => ?_
      · cases h
      · cases hr.mpr h
    | ok _ => exact ensures_run_pure.mpr (iff_of_true rfl (hr.mp rfl))

/-- A refresh token that was just issued is valid. -/
theorem run_validate_signedIn : ∃ cache,
    World.run (validate lone (oneUser.signer.sign refreshClaims) .refresh).run signedIn =
      (.ok ⟨alice.userId, refreshClaims⟩, { signedIn with cache }) := by
  obtain ⟨cache, hcache⟩ :=
    run_validate_cachesOnly lone (oneUser.signer.sign refreshClaims) .refresh signedIn
  have hchecked : signedIn.signer.checkClaims signedIn.now refreshClaims = .ok () := rfl
  have hstored : signedIn.store.stampOf alice.userId = some alice.stamp := rfl
  have hlive : KnownLive alice.userId ⟨.repeating 1⟩ signedIn := .inr (by decide +kernel)
  have hclaims : checkClaims lone.tokens refreshClaims .refresh = .ok () :=
    checkClaims_claimsFor ..
  have huser : refreshClaims.userId = .ok alice.userId := userId_claimsFor ..
  have hstamp : refreshClaims.stamp = .ok alice.stamp := stamp_claimsFor ..
  have haccepted := (run_validate_iff hclaims huser hstamp key_refreshClaims hstored).mpr
    ⟨hchecked, hlive⟩
  exact ⟨cache, Prod.ext haccepted hcache⟩

end AccessControl.Session
