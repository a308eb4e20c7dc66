import AccessControl.Proofs.Session.Exchange
import AccessControl.Proofs.Session.Expiry

/-! # How things stand with an issued token

A token is issued with the stamp that its user has, and its record is stored with it.  From then on
one of two things holds, whatever calls follow one another (`Stands`):

* the user still has the stamp, and what is cached of the key is no more than the record says: if
  there is no record, the key is not cached as live (`Tidy`);
* the stamp was replaced, and is dead.

For only a revocation removes the record of one key, and it removes what is cached of the key next;
and only a rotation removes the records of all keys of a user, when the old stamp is dead already.
-/
namespace AccessControl.Session
open World Outside Program
variable {d : Deployment} {user owner : UserId} {key other : TokenKey} {stamp : SecurityStamp}
  {kind : Token.Kind} {claims : Token.Claims} {expiry : Instant} {w w' : World} {log : Log}
  {issued : Token.Issued} {token : String} {mayFail : Backend.Request → Bool}
  {r : Backend.Request}

/-- An identifier is not given in exchanges in which it is not. -/
theorem follows_without {uuid : Uuid} (hf : outside.Follows w log w')
    (hfresh : uuid ∉ identifiers log) : (outsideWithout uuid).Follows w log w' :=
  hf.only fun _ he heq => hfresh (mem_identifiers.mpr (heq ▸ he))

/-! ## Records that are kept -/

/-- The record of one key is left as it is where another is stored. -/
theorem find?_withRecord {s : Store} {record : Token.Record}
    (h : (user, key) ≠ (record.userId, record.key)) :
    (withRecord s record).tokens.find? (user, key) = s.tokens.find? (user, key) :=
  (Table.find?_insert ..).trans (if_neg h)

/-- **Issuing a token leaves the record of every other key as it is**, however it ends. -/
theorem find?_of_issue {subject : Token.Subject} {refreshKey : Option TokenKey}
    {r : Except Failure Token.Issued}
    (ht : (issue d subject kind refreshKey).run.Transcript log r)
    (hf : outside.Follows w log w') (hfresh : key.uuid ∉ identifiers log) :
    w'.store.tokens.find? (user, key) = w.store.tokens.find? (user, key) := by
  rcases begins_issue ht.begins with hread | ⟨drawn, expiresAt, hdrawn, hissues⟩
  · rw [(follows_reading hf hread).1]
  · rcases hissues.store hf with hsame | hadded
    · rw [hsame]
    · rw [hadded]
      refine find?_withRecord fun heq => ?_
      obtain ⟨-, rfl⟩ := Prod.mk.inj heq
      exact hfresh hdrawn

theorem find?_of_issuePair {subject : Token.Subject} {r : Except Failure Token.Pair}
    (ht : (issuePair d subject).run.Transcript log r) (hf : outside.Follows w log w')
    (hfresh : key.uuid ∉ identifiers log) :
    w'.store.tokens.find? (user, key) = w.store.tokens.find? (user, key) := by
  rcases transcript_run_bind_iff.mp ht with ⟨t₁, refresh, t₂, rfl, h₁, h₂⟩ | ⟨_, -, h₁⟩
  · obtain ⟨m, hf₁, hf₂⟩ := follows_append_iff.mp hf
    rw [identifiers_append, List.mem_append, not_or] at hfresh
    have hfirst : m.store.tokens.find? (user, key) = w.store.tokens.find? (user, key) :=
      find?_of_issue h₁ hf₁ hfresh.1
    rcases transcript_run_bind_iff.mp h₂ with ⟨t₃, access, t₄, rfl, h₃, h₄⟩ | ⟨_, -, h₃⟩
    · obtain ⟨rfl, -⟩ := transcript_run_pure_iff.mp h₄
      rw [List.append_nil] at hf₂ hfresh
      exact (find?_of_issue h₃ hf₂ hfresh.2).trans hfirst
    · exact (find?_of_issue h₃ hf₂ hfresh.2).trans hfirst
  · exact find?_of_issue h₁ hf hfresh

theorem find?_of_refreshAccess {r : Except Failure Token.Issued}
    (ht : (refreshAccess d token).run.Transcript log r) (hf : outside.Follows w log w')
    (hfresh : key.uuid ∉ identifiers log) :
    w'.store.tokens.find? (user, key) = w.store.tokens.find? (user, key) := by
  rcases store_of_refreshAccess ht.begins hf with
    hsame | ⟨checked, rest, _, _, _, _, record, rfl, -, -, hdrawn, -, hadded⟩
  · rw [hsame]
  · rw [hadded]
    refine find?_withRecord fun heq => ?_
    obtain ⟨-, rfl⟩ := Prod.mk.inj heq
    rw [identifiers_append] at hfresh
    exact hfresh (List.mem_append_right _ hdrawn)

/-! ## Tidy keys -/

/-- **If there is no record of a key, it is not cached as live.** -/
def Tidy (user : UserId) (key : TokenKey) (w : World) : Prop :=
  w.store.tokens.find? (user, key) = none → Uncached user key w

/-- A request does not remove the record of a key, nor does it bring the key back. -/
def LeavesAlone (user : UserId) (key : TokenKey) (r : Backend.Request) : Prop :=
  r ≠ .deleteToken user key ∧ r ≠ .deleteTokens user ∧ KeepsAway user key r

theorem Tidy.drifts (h : Tidy user key w) (hw : Drifts w w') : Tidy user key w' := by
  intro hnone
  rw [hw.store] at hnone
  exact (h hnone).drifts hw

/-- What leaves a key alone leaves its record as it is. -/
theorem find?_answer (hr : LeavesAlone user key r) :
    (World.answer r w).2.store.tokens.find? (user, key) = w.store.tokens.find? (user, key) := by
  obtain ⟨hdelete, hforget, hcreate⟩ := hr
  refine find?_tokens_answer (fun record heq => ?_) hdelete hforget
  obtain rfl := heq
  exact hcreate

theorem Tidy.answer (h : Tidy user key w) (hr : LeavesAlone user key r) :
    Tidy user key (World.answer r w).2 := by
  intro hnone
  rw [find?_answer hr] at hnone
  exact Uncached.answer (h hnone) hr.2.2

theorem Tidy.answers (h : Tidy user key w) (hr : LeavesAlone user key r) {a : Backend.Answer r}
    (ha : (unreliable mayFail).Answers r w a w') : Tidy user key w' :=
  preserved_of_answers Tidy.drifts (·.answer hr) ha h

/-- A service leaves a key tidy. -/
abbrev LeavesTidy {α : Type} (user : UserId) (key : TokenKey) (x : Service α) : Prop :=
  outside.Preserves (Tidy user key) x

theorem leavesTidy_of_asks {α : Type} {x : Service α} (hx : x.run.Asks (LeavesAlone user key)) :
    LeavesTidy user key x :=
  preserves_of_asks hx fun _ _ _ _ hr ha h => h.answers hr ha

/-- **A key that is revoked is not cached afterwards**, whether or not its record was removed. -/
theorem leavesTidy_revokeKey : LeavesTidy user key (revokeKey owner other) := by
  by_cases hsame : (owner, other) = (user, key)
  · obtain ⟨rfl, rfl⟩ := Prod.mk.inj hsame
    exact fun w _ => ensures_revokeKey.mono fun _ _ h _ => h.1
  · have hdelete : LeavesAlone user key (.deleteToken owner other) := by
      refine ⟨fun heq => hsame ?_, nofun, trivial⟩
      obtain ⟨rfl, rfl⟩ := Backend.Request.deleteToken.inj heq
      rfl
    exact leavesTidy_of_asks (asks_revokeKey hdelete ⟨nofun, nofun, trivial⟩)

theorem leavesTidy_revokeKeys (keys : List TokenKey) :
    LeavesTidy user key (revokeKeys owner keys) := by
  induction keys with
  | nil => exact preserves_pure _
  | cons first keys ih =>
    intro w hw
    rw [revokeKeys, ensures_run_bind, ensures_run_outcome]
    refine (leavesTidy_revokeKey w hw).mono fun first v hv => ?_
    dsimp only
    rw [ensures_run_bind, ensures_run_outcome]
    refine (ih v hv).mono fun others w' hw' => ?_
    dsimp only
    rw [ensures_run_bind, ensures_run_conclude]
    cases first with
    | error failure => exact hw'
    | ok _ => exact ensures_run_conclude.mpr hw'

theorem leavesTidy_revoke (claims : Token.Claims) :
    LeavesTidy user key (revoke owner claims) := by
  rw [revoke]
  split
  · exact preserves_throw _
  · exact leavesTidy_revokeKeys _

/-- A rotation removes the records of its user alone. -/
theorem leavesTidy_rotateStamp (howner : owner ≠ user) :
    LeavesTidy user key (rotateStamp owner) := by
  have hforget : LeavesAlone user key (.deleteTokens owner) := by
    refine ⟨nofun, fun heq => howner ?_, trivial⟩
    exact Backend.Request.deleteTokens.inj heq
  refine leavesTidy_of_asks ?_
  rw [rotateStamp_eq]
  refine Asks.run_bind (asks_backend .fresh ⟨nofun, nofun, trivial⟩).run_lift fun uuid => ?_
  refine Asks.run_bind (asks_writeStamp ⟨nofun, nofun, trivial⟩
    ⟨nofun, nofun, trivial⟩) fun _ => ?_
  exact Asks.run_bind (asks_forgetTokens ⟨nofun, nofun, trivial⟩ hforget)
    fun _ => asks_run_pure _

/-- Where a record is left as it is and a key that is gone stays so, the key stays tidy. -/
theorem Tidy.of_kept (h : Tidy user key w)
    (hkept : w'.store.tokens.find? (user, key) = w.store.tokens.find? (user, key))
    (hgone : Gone user key w → Gone user key w') : Tidy user key w' := by
  intro hnone
  rw [hkept] at hnone
  exact (hgone ⟨hnone, h hnone⟩).cached

/-- **Every call leaves a key tidy that is not given anew**, but for a rotation of its user. -/
theorem Tidy.call {c : Call} {r : Except Failure c.Result} (h : Tidy user key w)
    (hc : c ≠ .rotateStamp user) (ht : (c.service d).run.Transcript log r)
    (hf : outside.Follows w log w') (hfresh : key.uuid ∉ identifiers log) : Tidy user key w' := by
  have hgone : Gone user key w → Gone user key w' := fun hw =>
    c.leavesGone w hw log r w' ht (follows_without hf hfresh)
  cases c with
  | issue subject kind refreshKey => exact h.of_kept (find?_of_issue ht hf hfresh) hgone
  | issuePair subject => exact h.of_kept (find?_of_issuePair ht hf hfresh) hgone
  | validate token kind =>
    have hstore := (follows_reading hf (reads_validate token kind log r ht)).1
    exact h.of_kept (by rw [hstore]) hgone
  | refreshAccess token => exact h.of_kept (find?_of_refreshAccess ht hf hfresh) hgone
  | revoke owner claims => exact leavesTidy_revoke claims w h log r w' ht hf
  | rotateStamp owner =>
    have howner : owner ≠ user := fun heq => hc (congrArg Call.rotateStamp heq)
    exact leavesTidy_rotateStamp howner w h log r w' ht hf

/-! ## How things stand -/

/-- **How things stand with a token**: its stamp is that of its user and its key is tidy, or its
stamp is dead. -/
inductive Stands (user : UserId) (stamp : SecurityStamp) (key : TokenKey) (w : World) : Prop where
  | current (hstored : w.store.stampOf user = some stamp) (htidy : Tidy user key w)
  | dead (hdead : Dead user stamp w)

theorem Stands.drifts (h : Stands user stamp key w) (hw : Drifts w w') :
    Stands user stamp key w' := by
  cases h with
  | current hstored htidy => exact .current (hw.store ▸ hstored) (htidy.drifts hw)
  | dead hdead => exact .dead (hdead.drifts hw)

/-- **After a rotation the old stamp is dead**, unless the new one was not written; then nothing has
changed. -/
theorem stands_rotateStamp :
    (outsideWithout stamp.uuid).Preserves (Stands user stamp key) (rotateStamp user) := by
  intro w h
  cases h with
  | dead hdead => exact (leavesDead_rotateStamp user w hdead).mono fun _ _ h => .dead h
  | current hstored htidy =>
    rw [rotateStamp_eq, ensures_run_bind, ensures_run_lift]
    refine (ensures_request (I := Backend) (r := .fresh)).mpr ?_
    rintro uuid v ⟨hfresh, ha⟩
    have hne : SecurityStamp.mk uuid ≠ stamp := by
      rintro rfl
      exact hfresh rfl
    have hdrawn : Stands user stamp key v := by
      refine .current ?_ (htidy.answers (r := .fresh) ⟨nofun, nofun, trivial⟩ ha)
      rw [stampOf_of_answers (r := .fresh) (fun _ => nofun) ha, hstored]
    dsimp only
    rw [ensures_run_bind]
    refine (ensures_writeStamp hne).only.mono fun written m hm => ?_
    rcases hm with ⟨rfl, hdead⟩ | ⟨⟨failure, rfl⟩, hdrift⟩
    · have hrest : LeavesDead user stamp (do
          forgetTokens user
          return SecurityStamp.mk uuid : Service SecurityStamp) :=
        Preserves.bind (leavesDead_of_asks asks_forgetTokens_spares) fun _ => preserves_pure _
      exact (hrest m hdead).mono fun _ _ h => .dead h
    · exact hdrawn.drifts hdrift

/-- **However a call ends, things stand with a token as said**, if neither its stamp nor its key is
given anew. -/
theorem Stands.call {c : Call} {r : Except Failure c.Result} (h : Stands user stamp key w)
    (ht : (c.service d).run.Transcript log r) (hf : outside.Follows w log w')
    (hstamp : stamp.uuid ∉ identifiers log) (hkey : key.uuid ∉ identifiers log) :
    Stands user stamp key w' := by
  by_cases hc : c = .rotateStamp user
  · subst hc
    exact stands_rotateStamp w h log r w' ht (follows_without hf hstamp)
  · cases h with
    | current hstored htidy =>
      refine .current ?_ (htidy.call hc ht hf hkey)
      rw [(follows_stampOf user hf (Call.asks_keepsStamp hc log r ht)).1, hstored]
    | dead hdead => exact .dead (c.leavesDead w hdead log r w' ht (follows_without hf hstamp))

/-- **Things stand with a token as said, whatever follows.** -/
theorem Course.stands {start : World} (h : Course d start log w)
    (hstamp : stamp.uuid ∉ identifiers log) (hkey : key.uuid ∉ identifiers log)
    (hstart : Stands user stamp key start) : Stands user stamp key w := by
  induction h with
  | start => exact hstart
  | drift _ hw ih => exact (ih hstamp hkey).drifts hw
  | call _ c ht hf ih =>
    rw [identifiers_append, List.mem_append, not_or] at hstamp hkey
    exact (ih hstamp.1 hkey.1).call ht hf hstamp.2 hkey.2

/-! ## Tokens that are issued -/

/-- The tokens that a call gives if it succeeds. -/
def Call.gives : (c : Call) → c.Result → List Token.Issued
  | .issue _ _ _, issued => [issued]
  | .issuePair _, pair => [pair.access, pair.refresh]
  | .refreshAccess _, issued => [issued]
  | .validate _ _, _ => []
  | .revoke _ _, _ => []
  | .rotateStamp _, _ => []

/-- **A token was issued in the course of exchanges**: what was signed for it names its user, the
stamp of the user and a key that was drawn for it, and its record is stored. -/
structure IssuedIn (log : Log) (w : World) (issued : Token.Issued) (claims : Token.Claims)
    (user : UserId) (stamp : SecurityStamp) (expiry : Instant) : Prop where
  text : issued.text = w.signer.sign claims
  ofUser : claims.userId = .ok user
  withStamp : claims.stamp = .ok stamp
  withKey : claims.key = .ok issued.key
  drawn : issued.key.uuid ∈ identifiers log
  current : w.store.stampOf user = some stamp
  stored : w.store.tokens.find? (user, issued.key) = some expiry

theorem IssuedIn.append_left (h : IssuedIn log w issued claims user stamp expiry) (before : Log) :
    IssuedIn (before ++ log) w issued claims user stamp expiry where
  text := h.text
  ofUser := h.ofUser
  withStamp := h.withStamp
  withKey := h.withKey
  drawn := by
    rw [identifiers_append]
    exact List.mem_append_right _ h.drawn
  current := h.current
  stored := h.stored

section Issuing
variable {subject : Token.Subject} {refreshKey : Option TokenKey}

/-- Issuing a token leaves all stamps as they are. -/
theorem stampOf_of_issue {r : Except Failure Token.Issued}
    (ht : (issue d subject kind refreshKey).run.Transcript log r) (hf : outside.Follows w log w') :
    w'.store.stampOf user = w.store.stampOf user :=
  (follows_stampOf user hf
    (Call.asks_keepsStamp (c := .issue subject kind refreshKey) nofun log r ht)).1

/-- **A token that is asked for with the stamp of its user is issued with it.** -/
theorem issuedIn_of_issue (hcurrent : w.store.stampOf subject.userId = some subject.stamp)
    (ht : (issue d subject kind refreshKey).run.Transcript log (.ok issued))
    (hf : outside.Follows w log w') :
    ∃ claims expiry, IssuedIn log w' issued claims subject.userId subject.stamp expiry := by
  obtain ⟨issuedAt, expiresAt, tokenId, -, -, -, htext, hstored⟩ := recorded_of_issue ht hf
  obtain ⟨rest, rfl, -⟩ := transcript_issue_ok ht
  rw [← signer_of_follows hf] at htext
  exact ⟨_, expiresAt, htext, userId_claimsFor .., stamp_claimsFor .., key_claimsFor ..,
    mem_identifiers.mpr List.mem_cons_self, (stampOf_of_issue ht hf).trans hcurrent, hstored⟩

/-- When another token is issued, the first is as it was. -/
theorem IssuedIn.issue {later : Log} {r : Except Failure Token.Issued}
    (h : IssuedIn log w issued claims user stamp expiry)
    (ht : (issue d subject kind refreshKey).run.Transcript later r)
    (hf : outside.Follows w later w') (hfresh : issued.key.uuid ∉ identifiers later) :
    IssuedIn (log ++ later) w' issued claims user stamp expiry where
  text := by rw [h.text, signer_of_follows hf]
  ofUser := h.ofUser
  withStamp := h.withStamp
  withKey := h.withKey
  drawn := by
    rw [identifiers_append]
    exact List.mem_append_left _ h.drawn
  current := (stampOf_of_issue ht hf).trans h.current
  stored := (find?_of_issue ht hf hfresh).trans h.stored

/-- Of a pair of tokens both are issued with the stamp of the user. -/
theorem issuedIn_of_issuePair {pair : Token.Pair}
    (hcurrent : w.store.stampOf subject.userId = some subject.stamp)
    (ht : (issuePair d subject).run.Transcript log (.ok pair)) (hf : outside.Follows w log w')
    (hdistinct : (identifiers log).Nodup) (hissued : issued = pair.access ∨ issued = pair.refresh) :
    ∃ claims expiry, IssuedIn log w' issued claims subject.userId subject.stamp expiry := by
  obtain ⟨t₁, refresh, t₂, rfl, hrefresh, h₂⟩ := transcript_run_bind_ok_iff.mp ht
  obtain ⟨t₃, access, t₄, rfl, haccess, h₄⟩ := transcript_run_bind_ok_iff.mp h₂
  obtain ⟨rfl, hpair⟩ := transcript_run_pure_iff.mp h₄
  obtain rfl := Except.ok.inj hpair
  rw [List.append_nil] at hf hdistinct ⊢
  obtain ⟨m, hf₁, hf₂⟩ := follows_append_iff.mp hf
  rcases hissued with rfl | rfl
  · have hcurrent' : m.store.stampOf subject.userId = some subject.stamp :=
      (stampOf_of_issue hrefresh hf₁).trans hcurrent
    obtain ⟨claims, expiry, h⟩ := issuedIn_of_issue hcurrent' haccess hf₂
    exact ⟨claims, expiry, h.append_left t₁⟩
  · obtain ⟨claims, expiry, h⟩ := issuedIn_of_issue hcurrent hrefresh hf₁
    rw [identifiers_append, List.nodup_append] at hdistinct
    refine ⟨claims, expiry, h.issue haccess hf₂ fun hmem => ?_⟩
    exact hdistinct.2.2 _ h.drawn _ hmem rfl

/-- A refresh issues a token with the stamp that it has found. -/
theorem issuedIn_of_refreshAccess
    (ht : (refreshAccess d token).run.Transcript log (.ok issued))
    (hf : outside.Follows w log w') :
    ∃ claims user stamp expiry, IssuedIn log w' issued claims user stamp expiry := by
  rw [refreshAccess_eq] at ht
  obtain ⟨t₁, validated, t₂, rfl, -, h₂⟩ := transcript_run_bind_ok_iff.mp ht
  obtain ⟨t₃, linked, t₄, rfl, -, h₄⟩ := transcript_run_bind_ok_iff.mp h₂
  obtain ⟨t₅, found, t₆, rfl, hfind, h₆⟩ := transcript_run_bind_ok_iff.mp h₄
  obtain rfl := transcript_request_iff.mp hfind
  obtain ⟨m₁, -, hf⟩ := follows_append_iff.mp hf
  obtain ⟨m₂, -, hf⟩ := follows_append_iff.mp hf
  obtain ⟨m₃, hlook, hissuing⟩ := follows_cons_iff.mp hf
  cases found with
  | none => exact nomatch (transcript_run_throw_iff.mp h₆).2
  | some stamp =>
    obtain ⟨hdrift, hfound⟩ := findStamp_answers hlook
    have hcurrent : m₃.store.stampOf validated.userId = some stamp := by
      rw [hdrift.store, ← hfound _ rfl]
    obtain ⟨claims, expiry, h⟩ := issuedIn_of_issue hcurrent h₆ hissuing
    exact ⟨claims, _, _, expiry, ((h.append_left [_]).append_left t₃).append_left t₁⟩

end Issuing

/-- A token that was just issued stands with its stamp, and its key is recorded. -/
theorem IssuedIn.stands (h : IssuedIn log w issued claims user stamp expiry) :
    Stands user stamp issued.key w :=
  .current h.current fun hnone => absurd (hnone.symm.trans h.stored) (by simp)

/-- **Every token that a call gives is issued with the stamp of its user**, if the call is made with
current stamps. -/
theorem issuedIn_of_gives {c : Call} {result : c.Result} (hc : c.IsCurrent w)
    (ht : (c.service d).run.Transcript log (.ok result)) (hf : outside.Follows w log w')
    (hdistinct : (identifiers log).Nodup) (hissued : issued ∈ c.gives result) :
    ∃ claims user stamp expiry, IssuedIn log w' issued claims user stamp expiry := by
  cases c with
  | issue subject kind refreshKey =>
    obtain rfl := List.mem_singleton.mp hissued
    obtain ⟨claims, expiry, h⟩ := issuedIn_of_issue hc ht hf
    exact ⟨claims, _, _, expiry, h⟩
  | issuePair subject =>
    have hissued' : issued = result.access ∨ issued = result.refresh := by
      simpa [Call.gives] using hissued
    obtain ⟨claims, expiry, h⟩ := issuedIn_of_issuePair hc ht hf hdistinct hissued'
    exact ⟨claims, _, _, expiry, h⟩
  | refreshAccess token =>
    obtain rfl := List.mem_singleton.mp hissued
    exact issuedIn_of_refreshAccess ht hf
  | validate token kind => exact absurd hissued List.not_mem_nil
  | revoke owner claims => exact absurd hissued List.not_mem_nil
  | rotateStamp owner => exact absurd hissued List.not_mem_nil

end AccessControl.Session
