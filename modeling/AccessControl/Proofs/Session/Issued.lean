import AccessControl.Proofs.Session.Requests
import AccessControl.Proofs.Text.Uuid

/-! # What is issued

The claims that are signed for a token say of it what it was issued with: they are read back as
the user, the stamp, the key and the linked key that they were written from.  An issuing that
succeeds is five exchanges after the drawing of the key, and the token is what was signed.
-/
namespace AccessControl.Session
open Program

section Claims
variable (settings : Token.Settings) (subject : Token.Subject) (kind : Token.Kind)
  (refreshKey : Option TokenKey) (key : TokenKey) (tokenId : Uuid) (issuedAt expiresAt : Instant)

@[simp] theorem userId_claimsFor :
    (claimsFor settings subject kind refreshKey key tokenId issuedAt expiresAt).userId =
      .ok subject.userId := by
  simp [Token.Claims.userId, claimsFor]

@[simp] theorem kind_claimsFor :
    (claimsFor settings subject kind refreshKey key tokenId issuedAt expiresAt).kind =
      .ok kind := by
  cases kind <;> rfl

@[simp] theorem stamp_claimsFor :
    (claimsFor settings subject kind refreshKey key tokenId issuedAt expiresAt).stamp =
      .ok subject.stamp := by
  simp [Token.Claims.stamp, claimsFor, Except.toOption]

@[simp] theorem key_claimsFor :
    (claimsFor settings subject kind refreshKey key tokenId issuedAt expiresAt).key = .ok key := by
  simp [Token.Claims.key, claimsFor, TokenKey.text]

/-- Only an access token is linked. -/
@[simp] theorem refreshKey_claimsFor_access :
    (claimsFor settings subject .access refreshKey key tokenId issuedAt expiresAt).refreshKey =
      refreshKey := by
  cases refreshKey with
  | none => rfl
  | some linked => simp [Token.Claims.refreshKey, claimsFor, TokenKey.text]

@[simp] theorem refreshKey_claimsFor_refresh :
    (claimsFor settings subject .refresh refreshKey key tokenId issuedAt expiresAt).refreshKey =
      none := rfl

/-- What is issued is of its kind, and of the service. -/
@[simp] theorem checkClaims_claimsFor :
    checkClaims settings
      (claimsFor settings subject kind refreshKey key tokenId issuedAt expiresAt) kind =
      .ok () := by
  simp [checkClaims, claimsFor]

end Claims

variable {d : Deployment} {subject : Token.Subject} {kind : Token.Kind}
  {refreshKey : Option TokenKey} {key : TokenKey} {t : List (Exchange Backend)}
  {issued : Token.Issued}

/-- **An issuing that succeeds has signed claims, stored their record and cached it.** -/
theorem transcript_issueWith_ok
    (h : (issueWith d subject kind refreshKey key).run.Transcript t (.ok issued)) :
    ∃ issuedAt expiresAt tokenId cached,
      issuedAt.add? (d.tokens.lifetime kind) = some expiresAt ∧
      issued.key = key ∧ issued.lifetime = d.tokens.lifetime kind ∧
      t = [⟨.now, issuedAt⟩, ⟨.fresh, tokenId⟩,
        ⟨.sign (claimsFor d.tokens subject kind refreshKey key tokenId issuedAt expiresAt),
          .ok issued.text⟩,
        ⟨.createToken ⟨subject.userId, key, expiresAt⟩, .ok ()⟩,
        ⟨.cacheSet (CacheKey.tokenValidity subject.userId key).text
          (Json.write (Cached.LiveToken.mk subject.userId key)) d.cacheSeconds, cached⟩] := by
  rw [issueWith] at h
  obtain ⟨_, issuedAt, _, rfl, hnow, hrest⟩ := transcript_run_bind_ok_iff.mp h
  obtain ⟨_, hissuedAt, hnow⟩ := transcript_run_lift_iff.mp hnow
  obtain rfl := Except.ok.inj hissuedAt
  obtain rfl := transcript_request_iff.mp hnow
  split at hrest
  · exact nomatch (transcript_run_throw_iff.mp hrest).2
  · rename_i expiresAt hexpiresAt
    obtain ⟨_, tokenId, _, rfl, hfresh, hsigning⟩ := transcript_run_bind_ok_iff.mp hrest
    obtain ⟨_, htokenId, hfresh⟩ := transcript_run_lift_iff.mp hfresh
    obtain rfl := Except.ok.inj htokenId
    obtain rfl := transcript_request_iff.mp hfresh
    obtain ⟨_, text, _, rfl, hsign, hcreating⟩ := transcript_run_bind_ok_iff.mp hsigning
    obtain rfl := transcript_request_iff.mp hsign
    obtain ⟨_, _, _, rfl, hcreate, hcaching⟩ := transcript_run_bind_ok_iff.mp hcreating
    obtain rfl := transcript_request_iff.mp hcreate
    obtain ⟨_, _, _, rfl, hstore, hend⟩ := transcript_run_bind_ok_iff.mp hcaching
    obtain ⟨_, -, hstore⟩ := transcript_run_lift_iff.mp hstore
    obtain ⟨cached, _, rfl, hdone⟩ := transcript_call_iff.mp hstore
    obtain ⟨rfl, -⟩ := transcript_done_iff.mp hdone
    obtain ⟨rfl, hissued⟩ := transcript_run_pure_iff.mp hend
    obtain rfl := Except.ok.inj hissued
    exact ⟨issuedAt, expiresAt, tokenId, cached, hexpiresAt, rfl, rfl, rfl⟩

/-- **An issuing draws the key of the token first**, however it ends. -/
theorem transcript_issue {r : Except Failure Token.Issued}
    (h : (issue d subject kind refreshKey).run.Transcript t r) :
    ∃ uuid rest, t = ⟨.fresh, uuid⟩ :: rest ∧
      (issueWith d subject kind refreshKey ⟨uuid⟩).run.Transcript rest r := by
  rw [issue_eq] at h
  rcases transcript_run_bind_iff.mp h with ⟨_, uuid, rest, rfl, hdraw, hissue⟩ | ⟨_, -, hdraw⟩
  · obtain ⟨_, huuid, hdraw⟩ := transcript_run_lift_iff.mp hdraw
    obtain rfl := Except.ok.inj huuid
    obtain rfl := transcript_request_iff.mp hdraw
    exact ⟨uuid, rest, rfl, hissue⟩
  · obtain ⟨_, heq, -⟩ := transcript_run_lift_iff.mp hdraw
    cases heq

/-- An issuing that succeeds has drawn the key of the token. -/
theorem transcript_issue_ok (h : (issue d subject kind refreshKey).run.Transcript t (.ok issued)) :
    ∃ rest, t = ⟨.fresh, issued.key.uuid⟩ :: rest ∧
      (issueWith d subject kind refreshKey issued.key).run.Transcript rest (.ok issued) := by
  obtain ⟨uuid, rest, rfl, hissue⟩ := transcript_issue h
  obtain ⟨_, _, _, _, -, hkey, -⟩ := transcript_issueWith_ok hissue
  rw [hkey]
  exact ⟨rest, rfl, hissue⟩

/-- **What is issued was signed for its subject**, with its stamp and the new key. -/
theorem signs_of_issue (h : (issue d subject kind refreshKey).run.Transcript t (.ok issued)) :
    ∃ tokenId issuedAt expiresAt, ⟨.sign (claimsFor d.tokens subject kind refreshKey issued.key
      tokenId issuedAt expiresAt), .ok issued.text⟩ ∈ t := by
  obtain ⟨rest, rfl, hissue⟩ := transcript_issue_ok h
  obtain ⟨issuedAt, expiresAt, tokenId, cached, -, -, -, rfl⟩ := transcript_issueWith_ok hissue
  exact ⟨tokenId, issuedAt, expiresAt, by simp⟩

/-- While a token is issued no stamp is looked up. -/
theorem looks_of_issue (h : (issue d subject kind refreshKey).run.Transcript t (.ok issued))
    (user : UserId) : ∀ e ∈ t, e.request ≠ Backend.Request.findStamp user := by
  obtain ⟨rest, rfl, hissue⟩ := transcript_issue_ok h
  obtain ⟨_, _, _, _, -, -, -, rfl⟩ := transcript_issueWith_ok hissue
  simp

end AccessControl.Session
