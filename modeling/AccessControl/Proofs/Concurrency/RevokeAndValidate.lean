import AccessControl.Proofs.Concurrency.Refill
import AccessControl.Proofs.Program.Interleaving
import AccessControl.Proofs.Session.Expiry
import AccessControl.Proofs.Session.Told

/-! # Validations beside a revocation

A revocation removes the record of a key and then what is cached of it, first for the key of a token
and then for the key that it is linked to.  A validation that has seen a record before it is removed
caches the key as live, and may do so at any time.  While the key is still cached the token is
accepted without its record.  **Only a key that is cached again after the removal of what was cached
(`LateRefill`) comes back.**

If there is none, then from the end of the revocation on its keys are gone: nobody finds a record,
so nobody caches a key, and every validation that starts afterwards fails.
-/
namespace AccessControl.Concurrency
open Session Outside Program World
variable {d : Deployment} {user : UserId} {key : TokenKey} {claims : Token.Claims}
  {token : String} {kind : Token.Kind} {w w' : World}

/-! ## What a revocation exchanges -/

section Exchanges
variable {keys : List TokenKey} {t before after : Log}

/-- A key that is revoked with success: its record is removed, and then what is cached of it. -/
theorem transcript_revokeKey_ok (h : (revokeKey user key).run.Transcript t (.ok ())) :
    ∃ found removed, t = [⟨.deleteToken user key, .ok found⟩,
      ⟨.cacheDelete (CacheKey.tokenValidity user key).text, removed⟩] := by
  obtain ⟨found, _, removed, _, rfl, hdelete, hrest⟩ := transcript_outcome_remove_ok h
  obtain rfl := transcript_request_iff.mp hdelete
  obtain ⟨rfl, -⟩ := transcript_run_pure_iff.mp hrest
  exact ⟨found, removed, rfl⟩

/-- The keys are revoked one after the other. -/
theorem transcript_revokeKeys_ok (h : (revokeKeys user (key :: keys)).run.Transcript t (.ok ())) :
    ∃ found removed rest, t = ⟨.deleteToken user key, .ok found⟩ ::
        ⟨.cacheDelete (CacheKey.tokenValidity user key).text, removed⟩ :: rest ∧
      (revokeKeys user keys).run.Transcript rest (.ok ()) := by
  obtain ⟨_, first, rest, others, rfl, hfirst, hrest, hended⟩ := transcript_revokeKeys_cons h
  cases first with
  | error failure => cases hended
  | ok _ =>
    obtain rfl : others = .ok () := hended.symm
    obtain ⟨found, removed, rfl⟩ := transcript_revokeKey_ok hfirst
    exact ⟨found, removed, rest, rfl, hrest⟩

/-- **The record of every key is removed.** -/
theorem deletes_of_revokeKeys (h : (revokeKeys user keys).run.Transcript t (.ok ()))
    (hkey : key ∈ keys) : ∃ found, ⟨.deleteToken user key, .ok found⟩ ∈ t := by
  induction keys generalizing t with
  | nil => exact absurd hkey List.not_mem_nil
  | cons first keys ih =>
    obtain ⟨found, removed, rest, rfl, hrest⟩ := transcript_revokeKeys_ok h
    rcases List.mem_cons.mp hkey with rfl | hkey
    · exact ⟨found, List.mem_cons_self⟩
    · obtain ⟨found', hmem⟩ := ih hrest hkey
      exact ⟨found', List.mem_cons_of_mem _ (List.mem_cons_of_mem _ hmem)⟩

/-- **After the removal of a record what is cached of the key is removed too.** -/
theorem tidies_of_revokeKeys {deleted : Except Failure Bool}
    (h : (revokeKeys user keys).run.Transcript
      (before ++ ⟨.deleteToken user key, deleted⟩ :: after) (.ok ())) :
    ∃ e ∈ after, e.request = .cacheDelete (CacheKey.tokenValidity user key).text := by
  induction keys generalizing before with
  | nil => exact absurd (transcript_run_pure_iff.mp h).1 (by simp)
  | cons first keys ih =>
    obtain ⟨found, removed, rest, heq, hrest⟩ := transcript_revokeKeys_ok h
    -- The removal is that of the first record, or one of the others.
    rcases before with _ | ⟨e, _ | ⟨e', before⟩⟩
    · obtain ⟨hfirst, rfl⟩ := List.cons.inj heq
      cases hfirst
      exact ⟨_, List.mem_cons_self, rfl⟩
    · cases (List.cons.inj (List.cons.inj heq).2).1
    · obtain rfl := (List.cons.inj (List.cons.inj heq).2).2
      exact ih hrest

/-- A revocation that succeeds revokes the key of the token and the key that it is linked to. -/
theorem revokeKeys_of_revoke (h : (revoke user claims).run.Transcript t (.ok ())) :
    ∃ own, claims.key = .ok own ∧
      (revokeKeys user (own :: claims.refreshKey.toList)).run.Transcript t (.ok ()) := by
  rw [revoke] at h
  split at h
  · cases (transcript_run_throw_iff.mp h).2
  · rename_i own hown
    exact ⟨own, hown, h⟩

end Exchanges

/-! ## Among other calls -/

variable {ι : Type} [DecidableEq ι] {calls : ι → Call} {i j : ι}
  {t earlier later : List (ι × Exchange Backend)}

/-- The change that a revocation makes: its caller removes the record of a key of a user. -/
def Revokes (j : ι) (user : UserId) (key : TokenKey) (i : ι) (e : Exchange Backend) : Prop :=
  i = j ∧ ∃ found, e = ⟨.deleteToken user key, .ok found⟩

/-- **A revocation has succeeded beside any number of other calls**, in which no identifier is given
that is one of the revoked keys.  The others may have ended or not. -/
structure RevokedAmong (d : Deployment) (user : UserId) (claims : Token.Claims) (calls : ι → Call)
    (j : ι) (t : List (ι × Exchange Backend)) : Prop where
  revocation : (revoke user claims).run.Transcript (share j t) (.ok ())
  begun : ∀ i, i ≠ j → ((calls i).service d).run.Begins (share i t)
  fresh : ∀ key, Revoked claims key → key.uuid ∉ identifiers (whole t)

namespace RevokedAmong

/-- Once the revocation has ended, it has so at every time. -/
theorem of_append (h : RevokedAmong d user claims calls j (earlier ++ later))
    (hended : share j later = []) : RevokedAmong d user claims calls j earlier where
  revocation := by
    have hrevocation := h.revocation
    rwa [share_append, hended, List.append_nil] at hrevocation
  begun i hi := by
    have hbegun := h.begun i hi
    rw [share_append] at hbegun
    exact hbegun.of_append
  fresh key hkey := by
    have hfresh := h.fresh key hkey
    rw [whole_append, identifiers_append, List.mem_append, not_or] at hfresh
    exact hfresh.1

/-- Everybody has begun some call. -/
theorem exists_call (h : RevokedAmong d user claims calls j t) (i : ι) :
    ∃ c : Call, (c.service d).run.Begins (share i t) := by
  by_cases hij : i = j
  · subst hij
    exact ⟨.revoke user claims, h.revocation.begins⟩
  · exact ⟨calls i, h.begun i hij⟩

/-- **Nobody stores a record of a revoked key.** -/
theorem creates (h : RevokedAmong d user claims calls j t) (hkey : Revoked claims key) :
    ∀ e ∈ whole t, ∀ record, e.request = .createToken record →
      (record.userId, record.key) ≠ (user, key) := by
  rintro ⟨_, created⟩ he record rfl hsame
  obtain ⟨-, rfl⟩ := Prod.mk.inj hsame
  obtain ⟨i, hi⟩ := mem_whole_iff.mp he
  obtain ⟨c, hc⟩ := h.exists_call i
  have hdrawn := c.storesDrawn.begins hc hi
  exact h.fresh _ hkey (mem_identifiers.mpr (mem_whole_of_mem_share (mem_identifiers.mp hdrawn)))

/-- **The record of a revoked key is removed**: from then on there is none, and none is found. -/
theorem cut (h : RevokedAmong d user claims calls j t) (hkey : Revoked claims key)
    (hf : outside.Follows w (whole t) w') :
    ∃ (before after : List (ι × Exchange Backend)) (found : Bool),
      t = before ++ (j, ⟨.deleteToken user key, .ok found⟩) :: after ∧
      w'.store.tokens.find? (user, key) = none ∧
      ∀ now live, ⟨.isTokenLive user key now, .ok live⟩ ∈ whole after → live = false := by
  obtain ⟨own, hown, hkeys⟩ := revokeKeys_of_revoke h.revocation
  obtain ⟨found, hdeleted⟩ :=
    deletes_of_revokeKeys hkeys ((mem_keys_iff_revoked hown).mpr hkey)
  obtain ⟨before, after, rfl⟩ := List.append_of_mem (mem_share.mp hdeleted)
  obtain ⟨m, m', -, hdelete, hafter⟩ := follows_whole_cut hf
  have hstep : ∀ e ∈ whole after, ∀ n n', outside.Answers e.request n e.answer n' →
      n.store.tokens.find? (user, key) = none → n'.store.tokens.find? (user, key) = none := by
    intro e he n n' ha
    refine unrecorded_of_answers (h.creates hkey e ?_) ha
    rw [whole_append, whole_cons]
    exact List.mem_append_right _ (List.mem_cons_of_mem _ he)
  have hnone := find?_of_deleteToken hdelete rfl
  refine ⟨before, after, found, rfl, hafter.invariant hstep hnone, fun now live hlive => ?_⟩
  obtain ⟨n, n', hn, hlook⟩ := hafter.exists_of_mem hstep hnone hlive
  rw [(isTokenLive_answers hlook).2 live rfl, Store.isTokenLive, hn]

/-- **The revocation tends to its keys**: it removes what is cached of a key after the record. -/
theorem tended (h : RevokedAmong d user claims calls j t)
    (hprompt : ¬LateRefill (Revokes j user key) (.tokenValidity user key) t) :
    Tended d.catalog (Revokes j user key) (.tokenValidity user key) t where
  filled i before value seconds a after heq := by
    obtain ⟨c, hc⟩ := h.exists_call i
    exact ((c.keepsOrder d).begins hc).filled before after _ value seconds a heq
  writes i e hchange := by
    obtain ⟨-, found, rfl⟩ := hchange
    rfl
  tidied i before change after heq hchange := by
    obtain ⟨rfl, found, rfl⟩ := hchange
    obtain ⟨own, -, hkeys⟩ := revokeKeys_of_revoke h.revocation
    rw [heq] at hkeys
    exact tidies_of_revokeKeys hkeys
  prompt := hprompt

/-- **Every revoked key is gone**, once the revocation has ended. -/
theorem gone (h : RevokedAmong d user claims calls j t) (hkey : Revoked claims key)
    (hprompt : ¬LateRefill (Revokes j user key) (.tokenValidity user key) t)
    (hf : outside.Follows w (whole t) w') : Gone user key w' := by
  obtain ⟨before, after, found, hcut, hnone, hunseen⟩ := h.cut hkey hf
  refine ⟨hnone, fun value item hheld hitem => ?_⟩
  have hdeletes : Revokes j user key j ⟨.deleteToken user key, .ok found⟩ := ⟨rfl, found, rfl⟩
  have hmem : (j, ⟨.deleteToken user key, .ok found⟩) ∈ t := by
    rw [hcut]
    exact List.mem_append_right _ List.mem_cons_self
  rcases (h.tended hprompt).origin rfl hf hheld with
    hspoilt | ⟨-, hunchanged, -⟩ | ⟨i, before', after', look, more, hmade, hderived, -, hunchanged⟩
  · exact absurd (hitem.symm.trans hspoilt) (by simp)
  · exact hunchanged j _ (mem_share.mpr hmem) hdeletes
  · cases hderived with
    | liveToken _ _ now =>
      -- The record was found after it was removed.
      rcases mem_or_of_append_cons_eq (hcut.symm.trans hmade) with hlate | ⟨-, between, rfl⟩
      · rcases List.mem_cons.mp hlate with heq | hlate
        · cases (Prod.mk.inj heq).2
        · exact hunchanged j _ (mem_share.mpr hlate) hdeletes
      · refine Bool.false_ne_true (hunseen now true ?_).symm
        rw [whole_append, whole_cons]
        exact List.mem_append_right _ List.mem_cons_self
    | newToken _ _ expiresAt =>
      refine h.creates hkey ⟨.createToken ⟨user, key, expiresAt⟩, .ok ()⟩ ?_ _ rfl rfl
      rw [hmade, whole_append, whole_cons]
      exact List.mem_append_right _ List.mem_cons_self

/-- **It is gone at every time from then on**, and nobody in flight brings it back. -/
theorem gone_since (h : RevokedAmong d user claims calls j (earlier ++ later))
    (hended : share j later = []) (hkey : Revoked claims key)
    (hprompt : ¬LateRefill (Revokes j user key) (.tokenValidity user key) (earlier ++ later))
    (hf : outside.Follows w (whole earlier) w') : Gone user key w' := by
  refine (h.of_append hended).gone hkey (fun hlate => hprompt (hlate.append ?_)) hf
  rintro _ _ ⟨rfl, -⟩
  exact hended

/-- It is hidden from then on, whoever asks. -/
theorem hides (h : RevokedAmong d user claims calls j (earlier ++ later))
    (hended : share j later = []) (hkey : Revoked claims key)
    (hprompt : ¬LateRefill (Revokes j user key) (.tokenValidity user key) (earlier ++ later))
    (hf : outside.Follows w (whole (earlier ++ later)) w') :
    ∀ e ∈ whole later, HidesKey user key e := by
  refine hf.forall_later fun before i e after m m' hcut hbefore hanswers => ?_
  rw [hcut, share_append] at hended
  rw [hcut, ← List.append_assoc] at h hprompt
  have hrest : share j ((i, e) :: after) = [] := (List.append_eq_nil_iff.mp hended).2
  exact hidesKey_of_answers (h.gone_since hrest hkey hprompt hbefore) hanswers

/-- **A validation that starts afterwards fails** for a token with a revoked key: with a rejection,
or as a store has failed. -/
theorem fails (h : RevokedAmong d user claims calls j (earlier ++ later))
    (hended : share j later = []) (hkey : Revoked claims key)
    (hprompt : ¬LateRefill (Revokes j user key) (.tokenValidity user key) (earlier ++ later))
    (hf : outside.Follows w (whole (earlier ++ later)) w')
    (htoken : Carries w.signer token user key) (hstarts : share i earlier = [])
    {r : Except Failure Token.Validated}
    (ht : (validate d token kind).run.Transcript (share i (earlier ++ later)) r) :
    ∃ failure, r = .error failure ∧ ((∃ rejection, failure = .rejected rejection) ∨
      StoreFailed failure (share i (earlier ++ later))) := by
  obtain ⟨now, said, hsaid, huser, hclaimed⟩ := htoken
  have hverified : ∀ c, ⟨.verify token, .ok c⟩ ∈ share i (earlier ++ later) → c = said := by
    intro c hc
    obtain ⟨now', hverdict⟩ := exists_verified hf (mem_whole_of_mem_share hc)
    exact Jwt.Signer.eq_of_verify_eq_ok hsaid hverdict
  have hhidden : ∀ e ∈ share i (earlier ++ later), HidesKey user key e := by
    rw [share_append, hstarts, List.nil_append]
    exact fun e he => h.hides hended hkey hprompt hf e (mem_whole_of_mem_share he)
  exact fails_validate_of_hidden ht hverified huser hclaimed hhidden

end RevokedAmong

/-- **A revocation holds against validations that are in flight.**  It succeeds beside any number of
other calls, and nobody who has seen a record of one of its keys before it was removed caches the
key after what was cached is removed.  Then its keys are gone at every time from its end on: there
is no record of them, they are not cached, and nobody in flight brings them back.  Every token with
such a key is rejected from then on, whether its validation is the only call or starts while others
are in flight; unless a store fails, it is rejected for itself. -/
theorem revocation_holds_in_flight (h : RevokedAmong d user claims calls j t)
    (hprompt : ∀ key, Revoked claims key →
      ¬LateRefill (Revokes j user key) (.tokenValidity user key) t)
    (hfollows : outside.Follows w (whole t) w') (hkey : Revoked claims key) :
    (∀ earlier later m, t = earlier ++ later → share j later = [] →
      outside.Follows w (whole earlier) m → Gone user key m) ∧
    ∀ token kind, Carries w.signer token user key →
      Rejects (validate d token kind) w' ∧
      ∀ earlier later i r, t = earlier ++ later → share j later = [] → share i earlier = [] →
        (validate d token kind).run.Transcript (share i t) r →
          ∃ failure, r = .error failure ∧
            ((∃ rejection, failure = .rejected rejection) ∨ StoreFailed failure (share i t)) := by
  refine ⟨?_, fun token kind htoken => ⟨?_, ?_⟩⟩
  · rintro earlier later m rfl hended hbefore
    exact h.gone_since hended hkey (hprompt key hkey) hbefore
  · have hsigner : w'.signer = w.signer := signer_of_follows hfollows
    rw [← hsigner] at htoken
    exact rejects_validate_of_gone (h.gone hkey (hprompt key hkey) hfollows) htoken
  · rintro earlier later i r rfl hended hstarts ht
    exact h.fails hended hkey (hprompt key hkey) hfollows htoken hstarts ht

/-! ## One user who signs out while being validated -/

/-- The one user signs out of a refresh token that is being validated. -/
def revokeAndValidate (token : String) : Caller → Call
  | .first => .revoke alice.userId refreshClaims
  | .second => .validate token .refresh

theorem revoke_refreshClaims :
    revoke alice.userId refreshClaims = revokeKeys alice.userId [⟨.repeating 1⟩] := by
  have hunlinked : refreshClaims.refreshKey = none := refreshKey_claimsFor_refresh ..
  rw [revoke, key_refreshClaims]
  dsimp only
  rw [hunlinked]
  rfl

/-- The world when the record of the refresh token is removed, while the token is still cached. -/
def recordRemoved : World :=
  (World.answer (.deleteToken alice.userId ⟨.repeating 1⟩) signedIn).2

/-- **The refresh token is accepted without its record.** -/
theorem accepts_recordRemoved :
    (World.run (validate lone (oneUser.signer.sign refreshClaims) .refresh).run recordRemoved).1 =
      .ok ⟨alice.userId, refreshClaims⟩ := by
  have hchecked : recordRemoved.signer.checkClaims recordRemoved.now refreshClaims = .ok () := rfl
  have hstored : recordRemoved.store.stampOf alice.userId = some alice.stamp := rfl
  have hlive : KnownLive alice.userId ⟨.repeating 1⟩ recordRemoved :=
    .inl ⟨⟨alice.userId, ⟨.repeating 1⟩⟩, by decide +kernel⟩
  have hclaims : checkClaims lone.tokens refreshClaims .refresh = .ok () :=
    checkClaims_claimsFor ..
  have huser : refreshClaims.userId = .ok alice.userId := userId_claimsFor ..
  have hstamp : refreshClaims.stamp = .ok alice.stamp := stamp_claimsFor ..
  exact (run_validate_iff hclaims huser hstamp key_refreshClaims hstored).mpr ⟨hchecked, hlive⟩

/-- The record is removed, then the token is validated, and then what is cached of it is removed. -/
def revokeAround (token : String) : List (Caller × Exchange Backend) :=
  (.first, ⟨.deleteToken alice.userId ⟨.repeating 1⟩, .ok true⟩) ::
    (solo .second (World.exchanges (validate lone token .refresh).run recordRemoved) ++
      [(.first, ⟨.cacheDelete (CacheKey.tokenValidity alice.userId ⟨.repeating 1⟩).text, .ok ()⟩)])

section Around
variable (token)

theorem transcript_first_revokeAround :
    (revoke alice.userId refreshClaims).run.Transcript (share .first (revokeAround token))
      (.ok ()) := by
  rw [revokeAround, share_cons_self, share_append, share_solo_of_ne (by decide),
    revoke_refreshClaims]
  exact .call (.call (.done _))

theorem transcript_second_revokeAround :
    (validate lone token .refresh).run.Transcript (share .second (revokeAround token))
      (World.run (validate lone token .refresh).run recordRemoved).1 := by
  have hends := transcript_exchanges (validate lone token .refresh).run recordRemoved
  rw [revokeAround, share_cons_of_ne (by decide), share_append, share_solo_self]
  exact (List.append_nil _).symm ▸ hends

/-- Nothing fails in this order, and no identifier is given. -/
theorem follows_revokeAround : ∃ w', faultless.Follows signedIn (whole (revokeAround token)) w' ∧
    w'.drawn = signedIn.drawn := by
  obtain ⟨cache, hcache⟩ := run_validate_cachesOnly lone token .refresh recordRemoved
  have hvalidation := faultless_follows_exchanges (validate lone token .refresh).run recordRemoved
  rw [hcache] at hvalidation
  let removed := World.answer
    (.cacheDelete (CacheKey.tokenValidity alice.userId ⟨.repeating 1⟩).text)
    { recordRemoved with cache }
  have hdeleted : Except.ok true =
      (World.answer (.deleteToken alice.userId ⟨.repeating 1⟩) signedIn).1 := rfl
  refine ⟨removed.2, ?_, rfl⟩
  rw [revokeAround, whole_cons, whole_append, whole_solo]
  refine .cons (m := recordRemoved) ⟨hdeleted, rfl⟩ ?_
  exact follows_append_iff.mpr ⟨_, hvalidation, .cons ⟨rfl, rfl⟩ (.nil _)⟩

theorem revokedAmong_revokeAround :
    RevokedAmong lone alice.userId refreshClaims (revokeAndValidate token) .first
      (revokeAround token) where
  revocation := transcript_first_revokeAround token
  begun caller hcaller := by
    cases caller with
    | first => exact absurd rfl hcaller
    | second => exact (transcript_second_revokeAround token).begins
  fresh key _ := by
    obtain ⟨w', hfollows, hdrawn⟩ := follows_revokeAround token
    rw [identifiers_eq_nil hfollows hdrawn]
    exact List.not_mem_nil

/-- The last of all exchanges is the removal of what is cached. -/
theorem not_lateRefill_revokeAround (hkey : Revoked refreshClaims key) :
    ¬LateRefill (Revokes .first alice.userId key) (.tokenValidity alice.userId key)
      (revokeAround token) := by
  obtain rfl := revoked_refreshClaims.mp hkey
  exact not_lateRefill_of_removal (List.cons_append ..).symm
    (fun _ _ _ hchange => hchange.1) fun _ he => absurd he List.not_mem_nil

end Around

/-- **A refresh token is validated in the midst of its revocation**: it is accepted, because it is
still cached.  Once the revocation has ended it is rejected. -/
theorem revocation_holds_in_flight_around :
    ∃ (pair : Token.Pair) (w' : World),
      World.run (issuePair lone alice).run oneUser = (.ok pair, signedIn) ∧
      (revoke alice.userId refreshClaims).run.Transcript
        (share .first (revokeAround pair.refresh.text)) (.ok ()) ∧
      (validate lone pair.refresh.text .refresh).run.Transcript
        (share .second (revokeAround pair.refresh.text)) (.ok ⟨alice.userId, refreshClaims⟩) ∧
      outside.Follows signedIn (whole (revokeAround pair.refresh.text)) w' ∧
      Gone alice.userId ⟨.repeating 1⟩ w' ∧
      ∀ kind, Rejects (validate lone pair.refresh.text kind) w' := by
  obtain ⟨pair, hpair, hrefresh, -⟩ := run_issuePair_oneUser
  have hsecond := transcript_second_revokeAround pair.refresh.text
  have haccepted := accepts_recordRemoved
  rw [← hrefresh] at haccepted
  rw [haccepted] at hsecond
  obtain ⟨w', hfaultless, -⟩ := follows_revokeAround pair.refresh.text
  have hfollows : outside.Follows signedIn (whole (revokeAround pair.refresh.text)) w' :=
    follows_of_faultless hfaultless
  obtain ⟨hgone, hrejects⟩ := revocation_holds_in_flight
    (revokedAmong_revokeAround pair.refresh.text) (fun _ => not_lateRefill_revokeAround _) hfollows
    (revoked_refreshClaims.mpr rfl)
  refine ⟨pair, w', hpair, transcript_first_revokeAround _, hsecond, hfollows,
    hgone _ [] _ (List.append_nil _).symm rfl hfollows, fun kind => ?_⟩
  exact (hrejects pair.refresh.text kind (hrefresh ▸ carries_refresh)).1

end AccessControl.Concurrency
