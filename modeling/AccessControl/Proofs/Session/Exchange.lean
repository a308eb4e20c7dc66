import AccessControl.Proofs.Session.Rotation
import AccessControl.Proofs.World.Reading

/-! # What an exchange of a refresh token writes

To exchange a refresh token is to validate it, to look up the stamp of its user and to issue an
access token.  The only write in this is that of the record of the access token, and it comes after
the key was drawn and the token was signed (`Issues`).  So whenever an exchange is given up, fails
or ends, the store is as it was, or that one record has been added (`store_of_refreshAccess`).
-/
namespace AccessControl.Session
open World Outside Program
variable {α β : Type} {d : Deployment} {subject : Token.Subject} {kind : Token.Kind}
  {refreshKey : Option TokenKey} {key : TokenKey} {record : Token.Record} {t u : Log}

/-- Nothing is written in the course of exchanges. -/
abbrev Reads (t : Log) : Prop := ∀ e ∈ t, e.request.writes = false

/-- **In the course of exchanges one record is stored and nothing else is written**: a token was
signed for it, issued as said, and its key was drawn. -/
structure Issues (d : Deployment) (subject : Token.Subject) (kind : Token.Kind)
    (refreshKey : Option TokenKey) (record : Token.Record) (t : Log) : Prop where
  owner : record.userId = subject.userId
  signed : ∃ tokenId issuedAt text, ⟨.sign (claimsFor d.tokens subject kind refreshKey record.key
    tokenId issuedAt record.expiresAt), .ok text⟩ ∈ t
  once : ∃ before created after, t = before ++ ⟨.createToken record, created⟩ :: after ∧
    Reads before ∧ Reads after

theorem Issues.append_left (h : Issues d subject kind refreshKey record t) (hu : Reads u) :
    Issues d subject kind refreshKey record (u ++ t) where
  owner := h.owner
  signed := by
    obtain ⟨tokenId, issuedAt, text, hmem⟩ := h.signed
    exact ⟨tokenId, issuedAt, text, List.mem_append_right _ hmem⟩
  once := by
    obtain ⟨before, created, after, rfl, hbefore, hafter⟩ := h.once
    exact ⟨u ++ before, created, after, (List.append_assoc ..).symm,
      List.forall_mem_append.mpr ⟨hu, hbefore⟩, hafter⟩

/-- After a step that only reads nothing is written yet, or the next step is begun. -/
theorem begins_after_reading {x : Service α} {f : α → Service β}
    (hx : x.run.Asks fun r : Backend.Request => r.writes = false)
    (h : (x >>= f).run.Begins t) :
    Reads t ∨ ∃ t₁ a t₂, t = t₁ ++ t₂ ∧ Reads t₁ ∧ x.run.Transcript t₁ (.ok a) ∧
      (f a).run.Begins t₂ := by
  rcases h.run_bind_cases with hfirst | ⟨t₁, a, t₂, rfl, h₁, h₂⟩
  · exact .inl (hx.begins hfirst)
  · exact .inr ⟨t₁, a, t₂, rfl, hx _ _ h₁, h₁, h₂⟩

theorem reads_request {r : Backend.Request} (h : r.writes = false) :
    (Backend.request r).Asks fun r : Backend.Request => r.writes = false := asks_backend r h

theorem reads_sign (claims : Token.Claims) :
    (Backend.sign claims).run.Asks fun r : Backend.Request => r.writes = false :=
  reads_request (r := .sign claims) rfl

/-- What follows the signing of a token: its record is stored, and it is cached as live. -/
def recording (d : Deployment) (record : Token.Record) (issued : Token.Issued) :
    Service Token.Issued := do
  Backend.createToken record
  Cached.store d.cacheSeconds (Cached.LiveToken.mk record.userId record.key)
  return issued

theorem begins_recording {issued : Token.Issued} (h : (recording d record issued).run.Begins t) :
    t = [] ∨ ∃ created after, t = ⟨.createToken record, created⟩ :: after ∧ Reads after := by
  rcases h.run_bind_cases with hcreate | ⟨_, _, after, rfl, hcreate, hrest⟩
  · rcases begins_request hcreate with rfl | ⟨created, rfl⟩
    · exact .inl rfl
    · exact .inr ⟨created, [], rfl, List.forall_mem_nil _⟩
  · obtain rfl := transcript_request_iff.mp hcreate
    have hset : (Backend.request (.cacheSet (CacheKey.tokenValidity record.userId record.key).text
        (Json.write (Cached.LiveToken.mk record.userId record.key)) d.cacheSeconds)).Asks
        fun r : Backend.Request => r.writes = false := reads_request rfl
    have hcaching : (liftM (Cached.store d.cacheSeconds
        (Cached.LiveToken.mk record.userId record.key)) : Service Unit).run.Asks
        fun r : Backend.Request => r.writes = false := (hset.bind fun _ => asks_done _).run_lift
    exact .inr ⟨_, after, rfl, (Asks.run_bind hcaching fun _ => asks_run_pure issued).begins hrest⟩

/-- **To issue a token is to sign it, and then to store its record.** -/
theorem begins_issueWith (h : (issueWith d subject kind refreshKey key).run.Begins t) :
    Reads t ∨
      ∃ expiresAt, Issues d subject kind refreshKey ⟨subject.userId, key, expiresAt⟩ t := by
  rw [issueWith] at h
  rcases begins_after_reading (reads_request rfl).run_lift h with
    hread | ⟨t₁, issuedAt, _, rfl, hnow, -, hrest⟩
  · exact .inl hread
  split at hrest
  · rw [begins_done hrest, List.append_nil]
    exact .inl hnow
  · rename_i expiresAt _
    rcases begins_after_reading (reads_request rfl).run_lift hrest with
      hread | ⟨t₂, tokenId, _, rfl, hfresh, -, hsigning⟩
    · exact .inl (List.forall_mem_append.mpr ⟨hnow, hread⟩)
    have hsigning : (Backend.sign (claimsFor d.tokens subject kind refreshKey key tokenId issuedAt
        expiresAt) >>= fun text => recording d ⟨subject.userId, key, expiresAt⟩
          ⟨text, key, d.tokens.lifetime kind⟩).run.Begins _ := hsigning
    rcases begins_after_reading (reads_sign _) hsigning with
      hread | ⟨t₃, text, rest, rfl, hsigned, hsign, hrecording⟩
    · exact .inl (List.forall_mem_append.mpr ⟨hnow, List.forall_mem_append.mpr ⟨hfresh, hread⟩⟩)
    obtain rfl := transcript_request_iff.mp hsign
    rcases begins_recording hrecording with rfl | ⟨created, after, rfl, hafter⟩
    · rw [List.append_nil]
      exact .inl (List.forall_mem_append.mpr ⟨hnow, List.forall_mem_append.mpr ⟨hfresh, hsigned⟩⟩)
    · have hissues : Issues d subject kind refreshKey ⟨subject.userId, key, expiresAt⟩
          ([⟨.sign _, .ok text⟩] ++ ⟨.createToken _, created⟩ :: after) :=
        ⟨rfl, ⟨tokenId, issuedAt, text, List.mem_cons_self⟩, [_], created, after, rfl, hsigned,
          hafter⟩
      exact .inr ⟨expiresAt, (hissues.append_left hfresh).append_left hnow⟩

/-- **A token is issued for a key that is drawn.** -/
theorem begins_issue (h : (issue d subject kind refreshKey).run.Begins t) :
    Reads t ∨ ∃ key expiresAt, key.uuid ∈ identifiers t ∧
      Issues d subject kind refreshKey ⟨subject.userId, key, expiresAt⟩ t := by
  rw [issue_eq] at h
  rcases begins_after_reading (reads_request rfl).run_lift h with
    hread | ⟨t₁, uuid, t₂, rfl, hfresh, hdraw, hissue⟩
  · exact .inl hread
  obtain ⟨_, hok, hdraw⟩ := transcript_run_lift_iff.mp hdraw
  obtain rfl := Except.ok.inj hok
  obtain rfl := transcript_request_iff.mp hdraw
  rcases begins_issueWith hissue with hread | ⟨expiresAt, hissues⟩
  · exact .inl (List.forall_mem_append.mpr ⟨hfresh, hread⟩)
  · have hdrawn : uuid ∈ identifiers ([⟨.fresh, uuid⟩] ++ t₂) :=
      mem_identifiers.mpr List.mem_cons_self
    exact .inr ⟨⟨uuid⟩, expiresAt, hdrawn, hissues.append_left hfresh⟩

/-! ## The exchange -/

/-- A validation writes nothing. -/
theorem reads_validate (token : String) (kind : Token.Kind) :
    (validate d token kind).run.Asks fun r : Backend.Request => r.writes = false :=
  asks_validate (P := fun r : Backend.Request => r.writes = false) rfl
    (fun _ => ⟨rfl, rfl, rfl, fun _ _ => rfl⟩)
    (fun _ _ => ⟨rfl, rfl, rfl, fun _ => rfl, fun _ => rfl⟩) d kind

/-- **Of an exchange for a validated token there comes nothing, or the record of one access token
of the same user**, linked to the validated token. -/
theorem begins_exchange {validated : Token.Validated}
    (h : (exchange d validated).run.Begins t) :
    Reads t ∨ ∃ linked stamp key expiresAt, validated.claims.key = .ok linked ∧
      key.uuid ∈ identifiers t ∧ Issues d ⟨validated.userId, stamp⟩ .access (some linked)
        ⟨validated.userId, key, expiresAt⟩ t := by
  rw [exchange] at h
  cases hlinked : validated.claims.key with
  | error rejection =>
    rw [hlinked] at h
    exact .inl (begins_done h ▸ List.forall_mem_nil _)
  | ok linked =>
    rw [hlinked, refusing, pure_bind] at h
    have hfinds : (Backend.findStamp validated.userId).run.Asks
        fun r : Backend.Request => r.writes = false :=
      reads_request (r := .findStamp validated.userId) rfl
    rcases begins_after_reading hfinds h with hread | ⟨t₁, found, t₂, rfl, hfound, -, hissue⟩
    · exact .inl hread
    cases found with
    | none =>
      rw [begins_done hissue, List.append_nil]
      exact .inl hfound
    | some stamp =>
      rcases begins_issue hissue with hread | ⟨key, expiresAt, hdrawn, hissues⟩
      · exact .inl (List.forall_mem_append.mpr ⟨hfound, hread⟩)
      · refine .inr ⟨linked, stamp, key, expiresAt, rfl, ?_, hissues.append_left hfound⟩
        rw [identifiers_append]
        exact List.mem_append_right _ hdrawn

/-- The store with the record of one more token. -/
def withRecord (s : Store) (record : Token.Record) : Store :=
  { s with tokens := s.tokens.insert (record.userId, record.key) record.expiresAt }

/-- Where one record is stored, it is added or nothing is. -/
theorem Issues.store {mayFail : Backend.Request → Bool} {w w' : World}
    (h : Issues d subject kind refreshKey record t) (hf : (unreliable mayFail).Follows w t w') :
    w'.store = w.store ∨ w'.store = withRecord w.store record := by
  obtain ⟨before, created, after, rfl, hbefore, hafter⟩ := h.once
  obtain ⟨m, hm, hrest⟩ := follows_append_iff.mp hf
  obtain ⟨m', ha, hend⟩ := follows_cons_iff.mp hrest
  obtain ⟨hstore, -⟩ := follows_reading hm hbefore
  obtain ⟨hstore', -⟩ := follows_reading hend hafter
  rw [hstore', ← hstore]
  obtain ⟨v, hv, rfl | rfl⟩ := done_or_not_of_answers ha
  · rw [← hv.store]
    exact write_cases (Q := fun _ v' => v'.store = v.store ∨ v'.store = withRecord v.store record)
      (fun _ hstored => .inr (Store.createToken_ok hstored)) fun _ _ => .inl rfl
  · exact .inl hv.store

/-- **A token is accepted**: its validation ends in a result, by exchanges that lead from a world
to a world. -/
structure Accepted (d : Deployment) (token : String) (kind : Token.Kind)
    (validated : Token.Validated) (w : World) (t : Log) (w' : World) : Prop where
  ends : (validate d token kind).run.Transcript t (.ok validated)
  follows : outside.Follows w t w'

/-- Nothing is written while a token is accepted. -/
theorem Accepted.store {token : String} {validated : Token.Validated} {w w' : World}
    (h : Accepted d token kind validated w t w') : w'.store = w.store :=
  (follows_reading h.follows (reads_validate token kind _ _ h.ends)).1

/-- **Exchanges in which a refresh token brings an access token**: the refresh token was accepted
for a user, and one record is added, that of an access token of this user which is linked to the
refresh token and has a key drawn for it. -/
def Refreshes (d : Deployment) (token : String) (w : World) (t : Log) (w' : World) : Prop :=
  ∃ checked rest validated m linked stamp record, t = checked ++ rest ∧
    Accepted d token .refresh validated w checked m ∧
    validated.claims.key = .ok linked ∧
    record.key.uuid ∈ identifiers rest ∧
    Issues d ⟨validated.userId, stamp⟩ .access (some linked) record rest ∧
    w'.store = withRecord w.store record

/-- **An exchange of a refresh token leaves the store as it is, or it brings an access token**,
even if it fails or is given up. -/
theorem store_of_refreshAccess {token : String} {w w' : World}
    (h : (refreshAccess d token).run.Begins t) (hf : outside.Follows w t w') :
    w'.store = w.store ∨ Refreshes d token w t w' := by
  rw [refreshAccess_eq] at h
  have hvalidate := reads_validate (d := d) token .refresh
  rcases begins_after_reading hvalidate h with
    hread | ⟨checked, validated, rest, rfl, -, hvalid, hexchange⟩
  · exact .inl (follows_reading hf hread).1
  obtain ⟨m, hm, hrest⟩ := follows_append_iff.mp hf
  have haccepted : Accepted d token .refresh validated w checked m := ⟨hvalid, hm⟩
  have hstore := haccepted.store
  rcases begins_exchange hexchange with
    hread | ⟨linked, stamp, key, expiresAt, hlinked, hdrawn, hissues⟩
  · exact .inl ((follows_reading hrest hread).1.trans hstore)
  rcases hissues.store hrest with hsame | hadded
  · exact .inl (hsame.trans hstore)
  · rw [hstore] at hadded
    exact .inr ⟨checked, rest, validated, m, linked, stamp, _, rfl, haccepted, hlinked, hdrawn,
      hissues, hadded⟩

/-! ## Exchanges that succeed -/

theorem transcript_refusing_ok {check : Except Rejection α} {a : α}
    (h : (refusing check).run.Transcript t (.ok a)) : t = [] ∧ check = .ok a := by
  cases check with
  | error rejection => exact nomatch (transcript_run_throw_iff.mp h).2
  | ok b =>
    obtain ⟨rfl, hb⟩ := transcript_run_pure_iff.mp h
    exact ⟨rfl, congrArg Except.ok (Except.ok.inj hb).symm⟩

/-- What is validated is what was verified, and its user is the one that it says. -/
theorem transcript_validateVerified_ok {verdict : Except Rejection Token.Claims}
    {validated : Token.Validated}
    (h : (validateVerified d kind verdict).run.Transcript t (.ok validated)) :
    verdict = .ok validated.claims ∧ validated.claims.userId = .ok validated.userId := by
  cases verdict with
  | error rejection => exact nomatch (transcript_run_throw_iff.mp h).2
  | ok claims =>
    obtain ⟨_, _, _, _, -, h₁⟩ := transcript_run_bind_ok_iff.mp h
    obtain ⟨_, owner, _, _, howner, h₂⟩ := transcript_run_bind_ok_iff.mp h₁
    obtain ⟨_, _, _, _, -, h₃⟩ := transcript_run_bind_ok_iff.mp h₂
    obtain ⟨_, _, _, _, -, h₄⟩ := transcript_run_bind_ok_iff.mp h₃
    obtain rfl := Except.ok.inj (transcript_run_pure_iff.mp h₄).2
    exact ⟨rfl, (transcript_refusing_ok howner).2⟩

/-- **A refresh that succeeds has looked up the stamp of the user of its token, and has issued a
token with the stamp that was found**, linked to the key of its token. -/
theorem transcript_refreshAccess_ok {token : String} {issued : Token.Issued}
    (h : (refreshAccess d token).run.Transcript t (.ok issued)) :
    ∃ claims owner checked stamp linked rest,
      t = (⟨.verify token, .ok claims⟩ :: checked) ++ ⟨.findStamp owner, .ok (some stamp)⟩ :: rest ∧
      claims.userId = .ok owner ∧ claims.key = .ok linked ∧
      (issue d ⟨owner, stamp⟩ .access (some linked)).run.Transcript rest (.ok issued) := by
  rw [refreshAccess_run_eq] at h
  obtain ⟨verdict, _, rfl, h₁⟩ := transcript_call_iff.mp h
  obtain ⟨checked, validated, _, rfl, hvalidate, h₂⟩ := transcript_run_bind_ok_iff.mp h₁
  obtain ⟨rfl, howner⟩ := transcript_validateVerified_ok hvalidate
  obtain ⟨_, linked, _, rfl, hkey, h₃⟩ := transcript_run_bind_ok_iff.mp h₂
  obtain ⟨rfl, hlinked⟩ := transcript_refusing_ok hkey
  obtain ⟨_, found, rest, rfl, hfind, h₄⟩ := transcript_run_bind_ok_iff.mp h₃
  obtain rfl := transcript_request_iff.mp hfind
  cases found with
  | none => exact nomatch (transcript_run_throw_iff.mp h₄).2
  | some stamp =>
    exact ⟨validated.claims, validated.userId, checked, stamp, linked, rest, rfl, howner, hlinked,
      h₄⟩

end AccessControl.Session
