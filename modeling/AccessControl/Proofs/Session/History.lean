import AccessControl.Proofs.Session.Issued
import AccessControl.Proofs.World.Answers

/-! # Histories of sessions

A history is a sequence of calls to the services of sessions, with any drift of the world
between them; what was exchanged in it is kept.  Tokens are asked for with the stamp that
their user has at the time (`Call.IsCurrent`).

What calls exchange about the issuing of tokens is what the issuings exchange that they consist of
(`AboutIssuing.call`).  Of every history it holds that the stamps of users, and the stamps in the
tokens that were signed, are stamps from its start or identifiers given in it (`Sound`).
-/
namespace AccessControl.Session
open World Outside Program

/-- Any request may fail without being done, except that removals from the cache take effect. -/
def mayFail : Backend.Request → Bool
  | .cacheDelete _ => false
  | _ => true

/-- The outside of the services of sessions. -/
abbrev outside : Outside Backend World := unreliable mayFail

/-- What was exchanged. -/
abbrev Log : Type := List (Exchange Backend)

/-- The identifiers given in the course of exchanges. -/
def identifiers (log : Log) : List Uuid :=
  log.filterMap fun
    | ⟨.fresh, uuid⟩ => some uuid
    | _ => none

theorem mem_identifiers {log : Log} {uuid : Uuid} :
    uuid ∈ identifiers log ↔ ⟨.fresh, uuid⟩ ∈ log := by
  rw [identifiers, List.mem_filterMap]
  constructor
  · rintro ⟨e, he, h⟩
    split at h
    · obtain rfl := Option.some.inj h
      exact he
    · cases h
  · exact fun h => ⟨_, h, rfl⟩

theorem identifiers_append (log log' : Log) :
    identifiers (log ++ log') = identifiers log ++ identifiers log' := List.filterMap_append ..

/-- A token was signed for a user in the course of exchanges. -/
def Signed (log : Log) (user : UserId) (token : String) : Prop :=
  ∃ claims : Token.Claims, claims.subject = user.text ∧ ⟨.sign claims, .ok token⟩ ∈ log

theorem Signed.append {log : Log} {user : UserId} {token : String} (h : Signed log user token)
    (log' : Log) : Signed (log ++ log') user token := by
  obtain ⟨claims, hsubject, hmem⟩ := h
  exact ⟨claims, hsubject, List.mem_append_left _ hmem⟩

theorem Signed.append_left {log : Log} {user : UserId} {token : String}
    (h : Signed log user token) (log' : Log) : Signed (log' ++ log) user token := by
  obtain ⟨claims, hsubject, hmem⟩ := h
  exact ⟨claims, hsubject, List.mem_append_right _ hmem⟩

/-- **A token that is issued was signed for its subject.** -/
theorem signed_of_issue {d : Deployment} {subject : Token.Subject} {kind : Token.Kind}
    {refreshKey : Option TokenKey} {log : Log} {issued : Token.Issued}
    (h : (issue d subject kind refreshKey).run.Transcript log (.ok issued)) :
    Signed log subject.userId issued.text := by
  obtain ⟨tokenId, issuedAt, expiresAt, hsign⟩ := signs_of_issue h
  exact ⟨_, rfl, hsign⟩

theorem signed_of_issuePair {d : Deployment} {subject : Token.Subject} {log : Log}
    {pair : Token.Pair} (h : (issuePair d subject).run.Transcript log (.ok pair)) :
    Signed log subject.userId pair.access.text ∧ Signed log subject.userId pair.refresh.text := by
  obtain ⟨_, refresh, _, rfl, hrefresh, h⟩ := transcript_run_bind_ok_iff.mp h
  obtain ⟨_, access, _, rfl, haccess, h⟩ := transcript_run_bind_ok_iff.mp h
  obtain ⟨rfl, hpair⟩ := transcript_run_pure_iff.mp h
  obtain rfl := Except.ok.inj hpair
  have hsigned := ((signed_of_issue haccess).append []).append_left
  exact ⟨hsigned _, (signed_of_issue hrefresh).append _⟩

/-! ## Where stamps come from -/

/-- A stamp is that of a user at the start, or one of the identifiers given since. -/
def Known (start : World) (log : Log) (stamp : SecurityStamp) : Prop :=
  (∃ user, start.store.stampOf user = some stamp) ∨ stamp.uuid ∈ identifiers log

theorem Known.append {start : World} {log : Log} {stamp : SecurityStamp}
    (h : Known start log stamp) (log' : Log) : Known start (log ++ log') stamp := by
  refine h.imp_right fun hmem => ?_
  rw [identifiers_append]
  exact List.mem_append_left _ hmem

/-- A request writes or signs known stamps only. -/
def Permitted (start : World) (log : Log) : Backend.Request → Prop
  | .updateStamp _ stamp => Known start log stamp
  | .sign claims => ∃ user : UserId, ∃ stamp, claims.subject = user.text ∧
    claims.stamp? = some stamp.text ∧ Known start log stamp
  | _ => True

theorem Permitted.append {start : World} {log : Log} {r : Backend.Request}
    (h : Permitted start log r) (log' : Log) : Permitted start (log ++ log') r := by
  cases r with
  | updateStamp user stamp => exact Known.append h log'
  | sign claims =>
    obtain ⟨user, stamp, hsubject, hstamp, hknown⟩ := h
    exact ⟨user, stamp, hsubject, hstamp, hknown.append log'⟩
  | _ => trivial

theorem allows_permitted {start : World} {log : Log} : Allows (Permitted start log) where
  get _ := trivial
  delete _ := trivial
  live _ _ := trivial
  fresh := trivial
  now := trivial
  verify _ := trivial
  createToken _ := trivial
  isTokenLive _ _ _ := trivial
  deleteToken _ _ := trivial
  deleteTokens _ := trivial
  findStamp _ := trivial

/-- **Every stamp that is stored or was signed is known, and what was signed is as the signer
signs it.** -/
structure Sound (start : World) (s : World × Log) : Prop where
  signer : s.1.signer = start.signer
  stored : ∀ user stamp, s.1.store.stampOf user = some stamp → Known start s.2 stamp
  signed : ∀ claims token, ⟨.sign claims, .ok token⟩ ∈ s.2 → token = start.signer.sign claims ∧
    ∃ user : UserId, ∃ stamp, claims.subject = user.text ∧ claims.stamp? = some stamp.text ∧
      Known start s.2 stamp

theorem sound_start (start : World) : Sound start (start, []) where
  signer := rfl
  stored user _ h := .inl ⟨user, h⟩
  signed _ _ h := absurd h List.not_mem_nil

variable {start w w' : World} {log : Log}

theorem Sound.drifts (h : Sound start (w, log)) (hw : Drifts w w') : Sound start (w', log) where
  signer := hw.signer.trans h.signer
  stored user stamp hstamp := h.stored user stamp (by rw [← hstamp, hw.store])
  signed := h.signed

theorem sign_eq_of_answered {claims : Token.Claims} {a : Backend.Answer (.sign claims)}
    {token : String} (h : Answered mayFail (.sign claims) w a w') (ha : a = .ok token) :
    token = w.signer.sign claims := by
  subst ha
  obtain ⟨hsigned, -⟩ := served_of_answered h fun _ h => nomatch Option.some.inj h
  exact Except.ok.inj hsigned

/-- **A permitted request keeps a history sound**, whether it is done or fails. -/
theorem Sound.answers {s s' : World × Log} {r : Backend.Request} {a : Backend.Answer r}
    (h : Sound start s) (hr : Permitted start s.2 r) (ha : outside.logged.Answers r s a s') :
    Sound start s' := by
  obtain ⟨w, log⟩ := s
  obtain ⟨w', log'⟩ := s'
  obtain ⟨hanswers, hlog⟩ := ha
  obtain rfl : log' = log ++ [⟨r, a⟩] := hlog
  have hsigner := signer_of_answers hanswers
  obtain ⟨v, hv, ha⟩ := hanswers
  have hsound := h.drifts hv
  have hdone : ∀ user stamp, (World.answer r v).2.store.stampOf user = some stamp →
      Known start (log ++ [⟨r, a⟩]) stamp := by
    intro user stamp hstamp
    rcases stampOf_answer_eq_some hstamp with hold | rfl
    · exact (hsound.stored user stamp hold).append _
    · exact Known.append hr _
  constructor
  · exact hsigner.trans h.signer
  · cases ha with
    | served => exact hdone
    | refused _ _ => exact fun user stamp hstamp => (hsound.stored user stamp hstamp).append _
    | unconfirmed _ _ => exact hdone
  · intro claims token hmem
    rcases List.mem_append.mp hmem with hold | hnew
    · obtain ⟨htoken, user, stamp, hsubject, hstamp, hknown⟩ := h.signed claims token hold
      exact ⟨htoken, user, stamp, hsubject, hstamp, hknown.append _⟩
    · cases List.mem_singleton.mp hnew
      refine ⟨?_, Permitted.append hr _⟩
      rw [sign_eq_of_answered ha rfl, hsound.signer]

/-- A program that makes permitted requests only keeps a history sound. -/
theorem ensures_sound_of_asks {α : Type} {p : Program Backend α}
    (hp : p.Asks (Permitted start log)) (h : Sound start (w, log)) :
    outside.logged.Ensures p (w, log) fun _ s' => Sound start s' ∧ log <+: s'.2 := by
  refine ensures_of_asks (P := Permitted start log) (R := fun s => Sound start s ∧ log <+: s.2)
    hp ?_ ⟨h, List.prefix_rfl⟩
  rintro r s a s' hr ha ⟨hsound, later, hlater⟩
  have hlog : s'.2 = s.2 ++ [⟨r, a⟩] := ha.2
  refine ⟨hsound.answers (hlater ▸ hr.append later) ha, later ++ [⟨r, a⟩], ?_⟩
  rw [hlog, ← hlater, List.append_assoc]

/-! ## Calls -/

/-- A call to one of the services of sessions. -/
inductive Call where
  | issue (subject : Token.Subject) (kind : Token.Kind) (refreshKey : Option TokenKey)
  | issuePair (subject : Token.Subject)
  | validate (token : String) (kind : Token.Kind)
  | refreshAccess (token : String)
  | revoke (user : UserId) (claims : Token.Claims)
  | rotateStamp (user : UserId)

namespace Call

/-- What a call results in if it succeeds. -/
def Result : Call → Type
  | .issue _ _ _ => Token.Issued
  | .issuePair _ => Token.Pair
  | .validate _ _ => Token.Validated
  | .refreshAccess _ => Token.Issued
  | .revoke _ _ => Unit
  | .rotateStamp _ => SecurityStamp

/-- The service that is called. -/
def service (d : Deployment) : (c : Call) → Service c.Result
  | .issue subject kind refreshKey => Session.issue d subject kind refreshKey
  | .issuePair subject => Session.issuePair d subject
  | .validate token kind => Session.validate d token kind
  | .refreshAccess token => Session.refreshAccess d token
  | .revoke user claims => Session.revoke user claims
  | .rotateStamp user => Session.rotateStamp user

/-- **Only a rotation for a user writes the stamp of the user.** -/
theorem asks_keepsStamp {d : Deployment} {user : UserId} {c : Call} (hc : c ≠ .rotateStamp user) :
    (c.service d).run.Asks (KeepsStamp user) := by
  cases c with
  | issue subject kind refreshKey =>
    exact asks_issue allows_keepsStamp d subject kind refreshKey fun _ _ _ _ => nofun
  | issuePair subject => exact asks_issuePair allows_keepsStamp d subject fun _ _ _ _ => nofun
  | validate token kind =>
    exact asks_validate (allows_keepsStamp.verify token) (fun _ => allowsStamp_keepsStamp)
      allows_keepsStamp.key d kind
  | refreshAccess token =>
    exact asks_refreshAccess allows_keepsStamp (fun _ => allowsStamp_keepsStamp) d token
      fun _ _ => nofun
  | revoke owner claims => exact asks_revoke allows_keepsStamp.toAllowsPlain owner claims
  | rotateStamp owner =>
    refine asks_rotateStamp allows_keepsStamp.toAllowsPlain owner fun stamp stamp' heq => ?_
    obtain ⟨rfl, -⟩ := Backend.Request.updateStamp.inj heq
    exact hc rfl

/-- Tokens are asked for with the stamp that their user has. -/
def IsCurrent (w : World) : Call → Prop
  | .issue subject _ _ => w.store.stampOf subject.userId = some subject.stamp
  | .issuePair subject => w.store.stampOf subject.userId = some subject.stamp
  | _ => True

end Call

/-! ## What calls exchange -/

/-- **Whatever a service exchanges is of a kind**, however it ends. -/
def Exchanges {α : Type} (P : Log → Prop) (x : Service α) : Prop :=
  ∀ log r, x.run.Transcript log r → P log

/-- A request neither signs a token nor stores a record. -/
def IssuesNothing : Backend.Request → Prop
  | .sign _ => False
  | .createToken _ => False
  | _ => True

theorem allowsPlain_issuesNothing : AllowsPlain IssuesNothing where
  get _ := trivial
  delete _ := trivial
  fresh := trivial
  now := trivial
  verify _ := trivial
  isTokenLive _ _ _ := trivial
  deleteToken _ _ := trivial
  deleteTokens _ := trivial
  findStamp _ := trivial

/-- A kind of exchanges is about what is issued, each time by itself. -/
structure AboutIssuing (P : Log → Prop) : Prop where
  append : ∀ {log log'}, P log → P log' → P (log ++ log')
  nothing : ∀ {log : Log}, (∀ e ∈ log, IssuesNothing e.request) → P log

namespace AboutIssuing
variable {P : Log → Prop} (h : AboutIssuing P) {α β : Type} {d : Deployment}
include h

theorem bind {x : Service α} {f : α → Service β} (hx : Exchanges P x)
    (hf : ∀ a, Exchanges P (f a)) : Exchanges P (x >>= f) := by
  intro log r ht
  rcases transcript_run_bind_iff.mp ht with ⟨t, a, u, rfl, ht, hu⟩ | ⟨failure, -, hx'⟩
  · exact h.append (hx t _ ht) (hf a u r hu)
  · exact hx log _ hx'

theorem of_asks {x : Service α} (hx : x.run.Asks IssuesNothing) : Exchanges P x :=
  fun log r ht => h.nothing (hx log r ht)

theorem validate (token : String) (kind : Token.Kind) :
    Exchanges P (Session.validate d token kind) :=
  h.of_asks (asks_validate (allowsPlain_issuesNothing.verify token)
    (fun _ => allowsPlain_issuesNothing.stamp fun _ _ => trivial)
    (fun _ _ => allowsPlain_issuesNothing.key fun _ => trivial) d kind)

/-- **What every issuing exchanges, every call does.** -/
theorem call (hissue : ∀ subject kind refreshKey,
    Exchanges P (Session.issue d subject kind refreshKey)) (c : Call) :
    Exchanges P (c.service d) := by
  cases c with
  | issue subject kind refreshKey => exact hissue subject kind refreshKey
  | issuePair subject =>
    exact h.bind (hissue subject .refresh none) fun _ =>
      h.bind (hissue subject .access _) fun _ => h.of_asks (asks_run_pure _)
  | validate token kind => exact h.validate token kind
  | refreshAccess token =>
    refine h.bind (h.validate token .refresh) fun validated => ?_
    refine h.bind (h.of_asks (asks_refusing _)) fun refreshKey => ?_
    refine h.bind (h.of_asks (asks_backend (.findStamp _) trivial)) fun stamp? => ?_
    split
    · exact h.of_asks (asks_run_throw _)
    · exact hissue _ .access _
  | revoke owner claims =>
    exact h.of_asks (asks_revoke allowsPlain_issuesNothing owner claims)
  | rotateStamp owner =>
    exact h.of_asks (asks_rotateStamp allowsPlain_issuesNothing owner fun _ => trivial)

end AboutIssuing

/-! ## Histories -/

/-- **What a history leads to**: calls one after the other, and drifts at any time. -/
inductive History (d : Deployment) (start : World) : Log → World → Prop where
  | start : History d start [] start
  /-- The cache loses or spoils values, and time passes. -/
  | drift {log : Log} {w w' : World} (h : History d start log w) (hw : Drifts w w') :
    History d start log w'
  /-- One more call has ended. -/
  | call {log log' : Log} {w w' : World} (h : History d start log w) (c : Call)
    {r : Except Failure c.Result} (hc : c.IsCurrent w) (ht : (c.service d).run.Transcript log' r)
    (hf : outside.Follows w log' w') : History d start (log ++ log') w'

/-- A call that is run without faults continues a history. -/
theorem History.run {d : Deployment} (h : History d start log w) (c : Call) (hc : c.IsCurrent w) :
    History d start (log ++ World.exchanges (c.service d).run w)
      (World.run (c.service d).run w).2 :=
  h.call c hc (transcript_exchanges _ w) (follows_exchanges _ w)

/-! ## Soundness -/

section Sound
variable {d : Deployment}

theorem permitted_sign {subject : Token.Subject} (h : Known start log subject.stamp)
    (claims : Token.Claims) (hsubject : claims.subject = subject.userId.text)
    (hstamp : claims.stamp? = some subject.stamp.text) : Permitted start log (.sign claims) :=
  ⟨subject.userId, subject.stamp, hsubject, hstamp, h⟩

/-- A service keeps every history sound. -/
abbrev KeepsSound {α : Type} (start : World) (x : Service α) : Prop :=
  outside.logged.Preserves (Sound start) x

theorem keepsSound_of_asks {α : Type} {x : Service α}
    (hx : ∀ log, x.run.Asks (Permitted start log)) : KeepsSound start x :=
  fun s hs => (ensures_sound_of_asks (hx s.2) hs).mono fun _ _ hs' => hs'.1

theorem keepsSound_validate (token : String) (kind : Token.Kind) :
    KeepsSound start (validate d token kind) :=
  keepsSound_of_asks fun _ => asks_validate trivial
    (fun _ => allows_permitted.toAllowsPlain.stamp fun _ _ => trivial) allows_permitted.key d kind

/-- An exchanged refresh token gives a token with the stamp that is stored at the time. -/
theorem keepsSound_refreshAccess (token : String) : KeepsSound start (refreshAccess d token) := by
  refine Preserves.bind (keepsSound_validate token .refresh) fun validated => ?_
  refine Preserves.bind (keepsSound_of_asks fun _ => asks_refusing _) fun refreshKey => ?_
  intro s hs
  -- The stamp is found in the store, where every stamp is known.
  have hasks : (Backend.findStamp validated.userId).run.Asks (Permitted start s.2) :=
    asks_backend (.findStamp _) trivial
  have hfind : outside.Ensures (Backend.findStamp validated.userId).run s.1 (fun r w' =>
      ∀ found, r = .ok found → found = w'.store.stampOf validated.userId) := by
    refine (ensures_request (I := Backend) (r := .findStamp _)).mpr fun a w' ha => ?_
    obtain ⟨hdrift, hfound⟩ := findStamp_answers ha
    rwa [hdrift.store]
  rw [ensures_run_bind]
  refine ((ensures_sound_of_asks hasks hs).and hfind.logged).mono fun r s' hs' => ?_
  obtain ⟨⟨hsound, -⟩, hfound⟩ := hs'
  cases r with
  | error failure => exact hsound
  | ok found =>
    obtain rfl := hfound found rfl
    dsimp only
    cases hstamp : s'.1.store.stampOf validated.userId with
    | none => exact ensures_run_throw.mpr hsound
    | some stamp =>
      exact (ensures_sound_of_asks (asks_issue allows_permitted d ⟨validated.userId, stamp⟩ .access
        _ (permitted_sign (hsound.stored _ _ hstamp))) hsound).mono fun _ _ hs' => hs'.1

/-- A rotation writes an identifier that it was just given. -/
theorem keepsSound_rotateStamp (user : UserId) : KeepsSound start (rotateStamp user) := by
  rw [rotateStamp_eq]
  intro s hs
  rw [ensures_run_bind, ensures_run_lift]
  refine (ensures_request (I := Backend) (r := .fresh)).mpr ?_
  intro uuid s' ha
  have hsound : Sound start s' := hs.answers (r := .fresh) trivial ha
  have hknown : Known start s'.2 ⟨uuid⟩ := by
    refine .inr (mem_identifiers.mpr ?_)
    rw [show s'.2 = s.2 ++ [⟨.fresh, uuid⟩] from ha.2]
    exact List.mem_append_right _ List.mem_cons_self
  have hwrite : (do
      writeStamp user ⟨uuid⟩
      forgetTokens user
      return SecurityStamp.mk uuid : Service SecurityStamp).run.Asks (Permitted start s'.2) :=
    Asks.run_bind (asks_writeStamp (allows_permitted.delete _) hknown) fun _ =>
      Asks.run_bind (asks_forgetTokens (allows_permitted.delete _) trivial) fun _ => asks_run_pure _
  exact (ensures_sound_of_asks hwrite hsound).mono fun _ _ hs' => hs'.1

/-- Every call keeps a history sound. -/
theorem ensures_sound_call {c : Call} (h : Sound start (w, log)) (hc : c.IsCurrent w) :
    outside.logged.Ensures (c.service d).run (w, log) fun _ s' => Sound start s' := by
  cases c with
  | issue subject kind refreshKey =>
    exact (ensures_sound_of_asks (asks_issue allows_permitted d subject kind refreshKey
      (permitted_sign (h.stored _ _ hc))) h).mono fun _ _ hs => hs.1
  | issuePair subject =>
    exact (ensures_sound_of_asks (asks_issuePair allows_permitted d subject
      (permitted_sign (h.stored _ _ hc))) h).mono fun _ _ hs => hs.1
  | validate token kind => exact keepsSound_validate token kind _ h
  | refreshAccess token => exact keepsSound_refreshAccess token _ h
  | revoke user claims =>
    exact keepsSound_of_asks (fun _ => asks_revoke allows_permitted.toAllowsPlain user claims) _ h
  | rotateStamp user => exact keepsSound_rotateStamp user _ h

/-- **Every history is sound.** -/
theorem History.sound (h : History d start log w) : Sound start (w, log) := by
  induction h with
  | start => exact sound_start start
  | drift h hw ih => exact ih.drifts hw
  | call h c hc ht hf ih => exact ensures_sound_call ih hc _ _ _ ht (hf.logged _)

end Sound
end AccessControl.Session
