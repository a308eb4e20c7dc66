import AccessControl.Proofs.Session.Fresh
import AccessControl.Proofs.Session.Siblings
import AccessControl.Proofs.Session.Signings
import AccessControl.Proofs.Session.Standing

/-! # The access tokens of a session

A session is opened with a pair of tokens, and its refresh token is exchanged for more access
tokens, among any other calls (`Refreshing`).  What is signed for each of these is copied from the
claims of the refresh token: its user, and its key as the one that the access token is linked to;
the key of the access token is drawn, and the stamp is the one that the user has by then
(`mintedIn_of_refreshAccess`).  So all access tokens of a session name one key, that of the refresh
token, and whichever of them is revoked, **the refresh token is worth nothing afterwards, and no
other token is concerned** (`EndsSession`).
-/
namespace AccessControl.Session
open World Outside Program
open scoped List
variable {d : Deployment} {user : UserId} {key : TokenKey} {subject : Token.Subject}
  {kind : Token.Kind} {refreshKey : Option TokenKey} {token text : String} {signer : Jwt.Signer}
  {claims said : Token.Claims} {issued : Token.Issued} {pair : Token.Pair} {w w' : World}
  {log t : Log}

/-! ## Tokens that are minted -/

/-- **A token was minted in the course of exchanges**: claims were signed for it, which read back as
what it was issued with. -/
structure MintedIn (log : Log) (signer : Jwt.Signer) (subject : Token.Subject) (kind : Token.Kind)
    (refreshKey : Option TokenKey) (issued : Token.Issued) (claims : Token.Claims) : Prop
    extends ReadsBack subject kind refreshKey issued claims where
  signed : (claims, issued.text) ∈ signings log
  text : issued.text = signer.sign claims

namespace MintedIn

theorem append (h : MintedIn log signer subject kind refreshKey issued claims) (later : Log) :
    MintedIn (log ++ later) signer subject kind refreshKey issued claims where
  toReadsBack := h.toReadsBack
  signed := by
    rw [signings_append]
    exact List.mem_append_left _ h.signed
  text := h.text

theorem append_left (h : MintedIn log signer subject kind refreshKey issued claims)
    (before : Log) : MintedIn (before ++ log) signer subject kind refreshKey issued claims where
  toReadsBack := h.toReadsBack
  signed := by
    rw [signings_append]
    exact List.mem_append_right _ h.signed
  text := h.text

/-- The key of a minted token is among those that were signed. -/
theorem singleton_sublist (h : MintedIn log signer subject kind refreshKey issued claims) :
    [.ok issued.key] <+ signedKeys log := h.key ▸ singleton_sublist_signedKeys h.signed

/-- The revocation of an access token is to remove its key and the one that it is linked to. -/
theorem revoked_iff {linked : TokenKey}
    (h : MintedIn log signer subject .access (some linked) issued claims) :
    Revoked claims key ↔ key = issued.key ∨ key = linked := by
  rw [Revoked, h.key, h.linked, if_pos rfl, Except.ok.injEq, Option.some.injEq, @eq_comm _ _ key,
    @eq_comm _ _ key]

end MintedIn

/-- **A token that is issued is minted for its subject**, with its stamp. -/
theorem mintedIn_of_issue
    (ht : (issue d subject kind refreshKey).run.Transcript t (.ok issued))
    (hf : outside.Follows w t w') :
    ∃ claims, MintedIn t w.signer subject kind refreshKey issued claims := by
  obtain ⟨rest, rfl, hissue⟩ := transcript_issue_ok ht
  obtain ⟨issuedAt, expiresAt, tokenId, cached, hexpires, -, hlifetime, rfl⟩ :=
    transcript_issueWith_ok hissue
  have hreads : ReadsBack subject kind refreshKey
      ⟨issued.text, issued.key, d.tokens.lifetime kind⟩
      (claimsFor d.tokens subject kind refreshKey issued.key tokenId issuedAt expiresAt) :=
    readsBack_claimsFor hexpires
  rw [← hlifetime] at hreads
  refine ⟨_, hreads, mem_signings.mpr (by simp), ?_⟩
  have hcourse : Course d w _ w' := Course.start.call (.issue subject kind refreshKey) ht hf
  exact hcourse.signed (mem_signings.mpr (by simp))

/-- **Of a pair both tokens are minted**, the access token linked to the refresh token. -/
theorem mintedIn_of_issuePair (ht : (issuePair d subject).run.Transcript t (.ok pair))
    (hf : outside.Follows w t w') :
    (∃ said, MintedIn t w.signer subject .refresh none pair.refresh said) ∧
      (∃ claims, MintedIn t w.signer subject .access (some pair.refresh.key) pair.access claims) ∧
      [.ok pair.refresh.key, .ok pair.access.key] <+ signedKeys t := by
  obtain ⟨t₁, refresh, _, rfl, hrefresh, h₂⟩ := transcript_run_bind_ok_iff.mp ht
  obtain ⟨t₂, access, _, rfl, haccess, h₃⟩ := transcript_run_bind_ok_iff.mp h₂
  obtain ⟨rfl, hpair⟩ := transcript_run_pure_iff.mp h₃
  obtain rfl := Except.ok.inj hpair
  rw [List.append_nil] at hf ⊢
  obtain ⟨m, hf₁, hf₂⟩ := follows_append_iff.mp hf
  obtain ⟨said, hsaid⟩ := mintedIn_of_issue hrefresh hf₁
  obtain ⟨claims, hclaims⟩ := mintedIn_of_issue haccess hf₂
  have hkeys : [.ok refresh.key] ++ [.ok access.key] <+ signedKeys t₁ ++ signedKeys t₂ :=
    hsaid.singleton_sublist.append hclaims.singleton_sublist
  rw [signer_of_follows hf₁] at hclaims
  rw [signedKeys_append]
  exact ⟨⟨said, hsaid.append t₂⟩, ⟨claims, hclaims.append_left t₁⟩, hkeys⟩

/-- **An access token that a refresh token brings is minted for the user of the refresh token**,
linked to the key of the refresh token, and with the stamp that the user has. -/
theorem mintedIn_of_refreshAccess (htoken : token = w.signer.sign said)
    (huser : said.userId = .ok user) (hkey : said.key = .ok key)
    (ht : (refreshAccess d token).run.Transcript t (.ok issued)) (hf : outside.Follows w t w') :
    ∃ stamp claims, w'.store.stampOf user = some stamp ∧
      MintedIn t w.signer ⟨user, stamp⟩ .access (some key) issued claims := by
  obtain ⟨verified, owner, checked, stamp, linked, rest, rfl, howner, hlinked, hissue⟩ :=
    transcript_refreshAccess_ok ht
  obtain ⟨m, hchecked, hrest⟩ := follows_append_iff.mp hf
  obtain ⟨m', hlook, hissuing⟩ := follows_cons_iff.mp hrest
  -- What was verified is what was signed, so its user and its key are those of the refresh token.
  obtain rfl : verified = said := by
    obtain ⟨_, hverify, -⟩ := follows_cons_iff.mp hchecked
    obtain ⟨-, hverdict⟩ := verify_answers hverify
    rw [htoken] at hverdict
    exact Jwt.Signer.eq_of_verify_sign hverdict.symm
  obtain rfl := Except.ok.inj (howner.symm.trans huser)
  obtain rfl := Except.ok.inj (hlinked.symm.trans hkey)
  obtain ⟨hdrift, hfound⟩ := findStamp_answers hlook
  have hstored : m'.store.stampOf owner = some stamp := by
    rw [hdrift.store, ← hfound _ rfl]
  have hsigner : m'.signer = w.signer := hdrift.signer.trans (signer_of_follows hchecked)
  obtain ⟨claims, hminted⟩ := mintedIn_of_issue hissue hissuing
  rw [hsigner] at hminted
  exact ⟨stamp, claims, (stampOf_of_issue hissue hissuing).trans hstored,
    (hminted.append_left [_]).append_left _⟩

/-! ## What comes of a refresh token -/

/-- An access token that a refresh token has brought, with the stamp that its user had then. -/
structure Brought where
  token : Token.Issued
  stamp? : Option SecurityStamp

/-- **What a refresh token of a user brings in the course of any calls**: the access tokens that it
was exchanged for with success, in their order. -/
inductive Refreshing (d : Deployment) (token : String) (user : UserId) (start : World) :
    List Brought → Log → World → Prop where
  | start : Refreshing d token user start [] [] start
  /-- The cache loses or spoils values, and time passes. -/
  | drift {brought : List Brought} {log : Log} {w w' : World}
    (h : Refreshing d token user start brought log w) (hw : Drifts w w') :
    Refreshing d token user start brought log w'
  /-- Any call has ended, in any way. -/
  | call {brought : List Brought} {log log' : Log} {w w' : World}
    (h : Refreshing d token user start brought log w) (c : Call) {r : Except Failure c.Result}
    (ht : (c.service d).run.Transcript log' r) (hf : outside.Follows w log' w') :
    Refreshing d token user start brought (log ++ log') w'
  /-- The refresh token was exchanged with success. -/
  | refreshed {brought : List Brought} {log log' : Log} {w w' : World} {issued : Token.Issued}
    (h : Refreshing d token user start brought log w)
    (ht : (refreshAccess d token).run.Transcript log' (.ok issued))
    (hf : outside.Follows w log' w') :
    Refreshing d token user start (brought ++ [⟨issued, w'.store.stampOf user⟩]) (log ++ log') w'

namespace Refreshing
variable {start : World} {brought : List Brought}

theorem course (h : Refreshing d token user start brought log w) : Course d start log w := by
  induction h with
  | start => exact .start
  | drift _ hw ih => exact ih.drift hw
  | call _ c ht hf ih => exact ih.call c ht hf
  | refreshed _ ht hf ih => exact ih.call (.refreshAccess token) ht hf

section
variable (htoken : token = start.signer.sign said) (huser : said.userId = .ok user)
  (hkey : said.key = .ok key)
include htoken huser hkey

/-- **Whatever a refresh token brings leads back to it.** -/
theorem minted (h : Refreshing d token user start brought log w) :
    ∀ b ∈ brought, ∃ stamp claims, b.stamp? = some stamp ∧
      MintedIn log start.signer ⟨user, stamp⟩ .access (some key) b.token claims := by
  induction h with
  | start => exact List.forall_mem_nil _
  | drift _ _ ih => exact ih
  | call _ _ _ _ ih =>
    intro b hb
    obtain ⟨stamp, claims, hstamp, hminted⟩ := ih b hb
    exact ⟨stamp, claims, hstamp, hminted.append _⟩
  | @refreshed _ log log' w w' issued hbefore ht hf ih =>
    have hsigner : w.signer = start.signer := hbefore.course.signer
    refine List.forall_mem_append.mpr ⟨fun b hb => ?_, List.forall_mem_singleton.mpr ?_⟩
    · obtain ⟨stamp, claims, hstamp, hminted⟩ := ih b hb
      exact ⟨stamp, claims, hstamp, hminted.append _⟩
    · obtain ⟨stamp, claims, hstamp, hminted⟩ :=
        mintedIn_of_refreshAccess (hsigner ▸ htoken) huser hkey ht hf
      rw [hsigner] at hminted
      exact ⟨stamp, claims, hstamp, hminted.append_left _⟩

/-- The keys of what it brings are signed one after the other. -/
theorem keys_sublist (h : Refreshing d token user start brought log w) :
    brought.map (fun b => .ok b.token.key) <+ signedKeys log := by
  induction h with
  | start => exact List.Sublist.refl _
  | drift _ _ ih => exact ih
  | call _ _ _ _ ih =>
    rw [signedKeys_append]
    exact ih.trans (List.sublist_append_left ..)
  | @refreshed _ log log' w w' issued hbefore ht hf ih =>
    have hsigner : w.signer = start.signer := hbefore.course.signer
    obtain ⟨_, _, -, hminted⟩ := mintedIn_of_refreshAccess (hsigner ▸ htoken) huser hkey ht hf
    rw [List.map_append, signedKeys_append]
    exact ih.append hminted.singleton_sublist

end
end Refreshing

/-! ## Revoking -/

/-- **What is signed with a key that is gone is not exchanged**, whether or not it would pass its
verification. -/
theorem rejects_refreshAccess_of_signed (hgone : Gone user key w) (huser : said.userId = .ok user)
    (hkey : said.key = .ok key) : Rejects (refreshAccess d (w.signer.sign said)) w := by
  refine rejects_refreshAccess ?_
  by_cases hholds : ∃ now, w.signer.checkClaims now said = .ok ()
  · obtain ⟨now, hchecked⟩ := hholds
    exact ensures_validate_of_gone hgone (carries_of_sign hchecked huser hkey)
  · rw [validate_run_eq, ensures_call]
    intro verdict v ha
    obtain ⟨-, hverdict⟩ := verify_answers ha
    rw [Jwt.Signer.verify_sign] at hverdict
    cases hchecked : w.signer.checkClaims v.now said with
    | error rejection =>
      rw [hchecked] at hverdict
      subst hverdict
      exact ensures_run_throw.mpr ⟨_, rfl⟩
    | ok _ => exact absurd ⟨v.now, hchecked⟩ hholds

/-- **A revocation has ended a session**, that of an access token with its refresh token, and no
other. -/
structure EndsSession (d : Deployment) (log : Log) (user : UserId) (refresh access : Token.Issued)
    (w : World) (revocation : Log) (ended : Except Failure Unit) (w' : World) : Prop where
  /-- The refresh token is never exchanged again, whatever calls follow; or its record could not be
  removed, and the revocation has failed. -/
  ends : (∀ after v, Course d w' after v → refresh.key.uuid ∉ identifiers after →
      Rejects (refreshAccess d refresh.text) v) ∨
    (∃ failure, ⟨.deleteToken user refresh.key, .error failure⟩ ∈ revocation) ∧
      ∃ failure, ended = .error failure
  /-- Every other token that was signed is validated and exchanged right after it as right before
  it, if nothing drifts meanwhile. -/
  spares : (steady mayFail).Follows w revocation w' → ∀ claims text key,
    (claims, text) ∈ signings log → claims.key = .ok key → key ≠ access.key → key ≠ refresh.key →
      (∀ kind, SameOutcome (validate d text kind).run w w') ∧
        SameOutcome (refreshAccess d text).run w w'

/-- **An access token leads back to a refresh token**: it was minted for the subject, linked to the
key of the refresh token, and revoking it ends the session. -/
def LeadsBack (d : Deployment) (log : Log) (subject : Token.Subject)
    (refresh access : Token.Issued) (w : World) : Prop :=
  ∃ claims, MintedIn log w.signer subject .access (some refresh.key) access claims ∧
    ∀ revocation ended w', (revoke subject.userId claims).run.Transcript revocation ended →
      outside.Follows w revocation w' →
      EndsSession d log subject.userId refresh access w revocation ended w'

/-- **Every access token that is linked to a refresh token of its user leads back to it.** -/
theorem leadsBack_of_minted {opener : Token.Subject} {refresh access : Token.Issued}
    (hsigned : ∀ claims text, (claims, text) ∈ signings log → text = w.signer.sign claims)
    (hrefresh : MintedIn log w.signer opener .refresh none refresh said)
    (hopener : opener.userId = subject.userId)
    (hminted : MintedIn log w.signer subject .access (some refresh.key) access claims) :
    LeadsBack d log subject refresh access w := by
  refine ⟨claims, hminted, fun revocation ended w' ht hf => ⟨?_, ?_⟩⟩
  · have hsigner : w'.signer = w.signer := signer_of_follows hf
    have hlinked : refresh.key ∈ access.key :: claims.refreshKey.toList :=
      (mem_keys_iff_revoked hminted.key).mpr (hminted.revoked_iff.mpr (.inr rfl))
    rw [revoke, hminted.key] at ht
    rcases gone_or_failed_of_revokeKeys ht hf hlinked with hgone | hfailed
    · refine .inl fun after v hafter hfresh => ?_
      have htext : refresh.text = v.signer.sign said := by
        rw [hafter.signer, hsigner, hrefresh.text]
      rw [htext]
      exact rejects_refreshAccess_of_signed (hafter.gone hfresh hgone) (hopener ▸ hrefresh.user)
        hrefresh.key
    · exact .inr hfailed
  · intro hsteady other text key hmem hkey haccess hrefreshKey
    -- The other token says its own key, which is none of those that are revoked.
    have hother : ∀ revoked, Revoked claims revoked →
        ¬Carries w.signer text subject.userId revoked := by
      intro revoked hrevoked hcarries
      rw [hsigned other text hmem] at hcarries
      obtain ⟨-, hown⟩ := claims_of_carries_sign hcarries
      obtain rfl := Except.ok.inj (hkey.symm.trans hown)
      rcases hminted.revoked_iff.mp hrevoked with rfl | rfl
      · exact haccess rfl
      · exact hrefreshKey rfl
    exact ⟨fun kind => sameOutcome_of_revoke ht hsteady hother,
      sameOutcome_refreshAccess_of_revoke ht hsteady hother⟩

/-- Where no two tokens that were signed have the same key, no two tokens of a session have. -/
theorem nodup_keys_of_signed {before opening later : Log} {brought : List Brought}
    (hpair : [.ok pair.refresh.key, .ok pair.access.key] <+ signedKeys opening)
    (hbrought : brought.map (fun b => .ok b.token.key) <+ signedKeys later)
    (hnodup : (signedKeys (before ++ opening ++ later)).Nodup) :
    ((pair.refresh :: pair.access :: brought.map Brought.token).map Token.Issued.key).Nodup := by
  have hkeys : [.ok pair.refresh.key, .ok pair.access.key] ++
      brought.map (fun b => .ok b.token.key) <+ signedKeys (before ++ opening ++ later) := by
    rw [signedKeys_append, signedKeys_append, List.append_assoc]
    exact (hpair.append hbrought).trans (List.sublist_append_right ..)
  refine List.Nodup.of_map (Except.ok : TokenKey → Except Rejection TokenKey) ?_
  simpa [List.map_map, Function.comp_def] using hkeys.nodup hnodup

/-- **The access tokens of a session lead back to its refresh token.**  A session is opened after
any calls, and its refresh token is exchanged among any others, where no identifier is given twice.
Then no two tokens that were signed have the same key, nor have any two tokens of the session; and
each of its access tokens leads back to the refresh token.  The first has the stamp that the session
was opened with, which is the user's afterwards if it was before; every other has the stamp that the
user had when it was issued. -/
theorem access_tokens_lead_back {start w₀ w₁ w₂ : World} {before opening later : Log}
    {brought : List Brought} (hbefore : Course d start before w₀)
    (hopen : (issuePair d subject).run.Transcript opening (.ok pair))
    (hopened : outside.Follows w₀ opening w₁)
    (hlater : Refreshing d pair.refresh.text subject.userId w₁ brought later w₂)
    (hdistinct : (identifiers (before ++ opening ++ later)).Nodup) :
    (signedKeys (before ++ opening ++ later)).Nodup ∧
    ((pair.refresh :: pair.access :: brought.map Brought.token).map Token.Issued.key).Nodup ∧
    (∃ said, MintedIn (before ++ opening ++ later) w₂.signer subject .refresh none pair.refresh
      said) ∧
    LeadsBack d (before ++ opening ++ later) subject pair.refresh pair.access w₂ ∧
    w₁.store.stampOf subject.userId = w₀.store.stampOf subject.userId ∧
    ∀ b ∈ brought, ∃ stamp, b.stamp? = some stamp ∧
      LeadsBack d (before ++ opening ++ later) ⟨subject.userId, stamp⟩ pair.refresh b.token w₂ := by
  have hcourse : Course d start (before ++ opening ++ later) w₂ :=
    (hbefore.call (.issuePair subject) hopen hopened).trans hlater.course
  have hnodup : (signedKeys (before ++ opening ++ later)).Nodup :=
    nodup_signedKeys hcourse.signsDrawn hdistinct
  have hsigned : ∀ claims text, (claims, text) ∈ signings (before ++ opening ++ later) →
      text = w₂.signer.sign claims := by
    intro claims text hmem
    rw [hcourse.signer]
    exact hcourse.signed hmem
  have hsigner₁ : w₁.signer = w₀.signer := signer_of_follows hopened
  have hsigner₂ : w₂.signer = w₀.signer := hlater.course.signer.trans hsigner₁
  obtain ⟨⟨said, hsaid⟩, ⟨claims, hclaims⟩, hpair⟩ := mintedIn_of_issuePair hopen hopened
  have htoken : pair.refresh.text = w₁.signer.sign said := hsigner₁ ▸ hsaid.text
  have hdifferent := nodup_keys_of_signed hpair (hlater.keys_sublist htoken hsaid.user hsaid.key)
    hnodup
  -- What was minted in a part of the course was minted in it.
  rw [← hsigner₂] at hsaid hclaims
  replace hsaid := (hsaid.append_left before).append later
  replace hclaims := (hclaims.append_left before).append later
  have hstamp : w₁.store.stampOf subject.userId = w₀.store.stampOf subject.userId :=
    (follows_stampOf subject.userId hopened
      (Call.asks_keepsStamp (c := .issuePair subject) nofun opening _ hopen)).1
  refine ⟨hnodup, hdifferent, ⟨said, hsaid⟩, leadsBack_of_minted hsigned hsaid rfl hclaims, hstamp,
    fun b hb => ?_⟩
  obtain ⟨stamp, minted, hcurrent, hminted⟩ := hlater.minted htoken hsaid.user hsaid.key b hb
  rw [hsigner₁, ← hsigner₂] at hminted
  exact ⟨stamp, hcurrent, leadsBack_of_minted hsigned hsaid rfl (hminted.append_left _)⟩

/-- A user signs in, exchanges the refresh token and signs out with what it has brought: the refresh
token is worth nothing any more, and the first access token is validated as before. -/
theorem access_tokens_lead_back_when_signedIn : ∃ pair issued claims w,
    World.run (issuePair lone alice).run oneUser = (.ok pair, signedIn) ∧
    World.run (refreshAccess lone pair.refresh.text).run signedIn = (.ok issued, w) ∧
    issued.text = w.signer.sign claims ∧ claims.refreshKey = some pair.refresh.key ∧
    Rejects (refreshAccess lone pair.refresh.text)
      (World.run (revoke alice.userId claims).run w).2 ∧
    SameOutcome (validate lone pair.access.text .access).run w
      (World.run (revoke alice.userId claims).run w).2 := by
  obtain ⟨pair, hissue, hrefresh, -⟩ := run_issuePair_oneUser
  obtain ⟨cache, hvalidate⟩ := run_validate_signedIn
  have hstored : signedIn.store.stampOf alice.userId = some alice.stamp := rfl
  have hexpires : signedIn.now.add? lone.tokens.accessLifetime = some accessUntil := rfl
  have hknown : signedIn.store.users.contains alice.userId = true := rfl
  obtain ⟨issued, hexchange, -, -⟩ :=
    run_exchange (w := { signedIn with cache }) key_refreshClaims hstored hexpires hknown
  obtain ⟨w, hrun, hdrawn⟩ : ∃ w,
      World.run (refreshAccess lone pair.refresh.text).run signedIn = (.ok issued, w) ∧
        w.drawn ≤ 16 := by
    rw [hrefresh, refreshAccess_eq, run_bind_of_ok hvalidate]
    have hfew : signedIn.drawn + 2 ≤ 16 := by decide
    exact ⟨_, hexchange, hfew⟩
  obtain ⟨hopen, hopened⟩ := transcript_and_follows_of_run hissue
  obtain ⟨hbring, hbrought⟩ := transcript_and_follows_of_run hrun
  have hlater : Refreshing lone pair.refresh.text alice.userId signedIn _ _ w :=
    Refreshing.start.refreshed hbring (follows_of_faultless hbrought)
  have hfresh := fresh_of_drawn (follows_append_iff.mpr ⟨_, hopened, hbrought⟩) hdrawn
  obtain ⟨-, hdifferent, -, ⟨first, hfirst, -⟩, -, hothers⟩ := access_tokens_lead_back .start hopen
    (follows_of_faultless hopened) hlater hfresh.distinct
  obtain ⟨stamp, -, claims, hminted, hends⟩ := hothers _ List.mem_cons_self
  have hended := hends _ _ _ (transcript_exchanges (revoke alice.userId claims).run w)
    (follows_exchanges _ w)
  have hkeys : pair.access.key ≠ issued.key ∧ pair.access.key ≠ pair.refresh.key := by
    simp only [List.nil_append, List.map_cons, List.map_nil, List.nodup_cons, List.mem_cons,
      not_or] at hdifferent
    exact ⟨hdifferent.2.1.1, Ne.symm hdifferent.1.1⟩
  have hsame := hended.spares (steady_follows_exchanges _ w) first pair.access.text pair.access.key
    hfirst.signed hfirst.key hkeys.1 hkeys.2
  refine ⟨pair, issued, claims, w, hissue, hrun, hminted.text, hminted.linked, ?_, hsame.1 .access⟩
  rcases hended.ends with hrejects | ⟨-, failure, hfailed⟩
  · exact hrejects [] _ .start List.not_mem_nil
  · cases (run_revoke hminted.key).symm.trans hfailed

end AccessControl.Session
