import AccessControl.Proofs.Jwt.Signer
import AccessControl.Proofs.Session.Dead

/-! # A rotation is final

Once a rotation has written a new stamp, the old one is dead: it is neither stored nor cached.
No later call revives it, since only identifiers that are given for the first time are written
and only stored stamps are cached.  A token with a dead stamp is refused at the latest when
its stamp is checked, so whatever is said against it otherwise is said first.
-/
namespace AccessControl.Session
open World Outside Program

/-- Why a token with a dead stamp is refused, given how its verification ended: for what the
verification or the check of its claims has against it, and else for its stamp. -/
def refusal (settings : Token.Settings) (kind : Token.Kind) :
    Except Rejection Token.Claims → Rejection
  | .error rejection => rejection
  | .ok claims =>
    match checkClaims settings claims kind with
    | .error rejection => rejection
    | .ok _ => .invalidSecurityStamp

/-- What a validation does once the token was verified. -/
def validateVerified (d : Deployment) (kind : Token.Kind) :
    Except Rejection Token.Claims → Service Token.Validated
  | .error rejection => throw (.rejected rejection)
  | .ok claims => do
    refusing (checkClaims d.tokens claims kind)
    let user ← refusing claims.userId
    checkStamp d user claims
    checkKey d user claims
    return ⟨user, claims⟩

/-- A validation asks for the verification of the token before anything else. -/
theorem validate_run_eq (d : Deployment) (token : String) (kind : Token.Kind) :
    (validate d token kind).run =
      .call (.verify token) fun verdict => (validateVerified d kind verdict).run := by
  refine congrArg (Program.call (I := Backend) (.verify token)) (funext fun verdict => ?_)
  cases verdict <;> rfl

section
variable {P : Backend.Request → Prop} {d : Deployment} {kind : Token.Kind}
  {verdict : Except Rejection Token.Claims}
  (hstamp : ∀ claims owner, verdict = .ok claims → claims.userId = .ok owner →
    AllowsStamp P owner)
  (hkey : ∀ claims owner key, verdict = .ok claims → claims.userId = .ok owner →
    claims.key = .ok key → AllowsKey P owner key)
include hstamp hkey

/-- Whatever follows a validation of a verified token, follows it for the user of the claims. -/
theorem asks_validateVerified_bind {α : Type} {f : Token.Validated → Service α}
    (hf : ∀ claims owner, verdict = .ok claims → claims.userId = .ok owner →
      (f ⟨owner, claims⟩).run.Asks P) : (validateVerified d kind verdict >>= f).run.Asks P := by
  cases verdict with
  | error rejection => exact asks_run_throw _
  | ok claims =>
    simp only [validateVerified, LawfulMonad.bind_assoc]
    refine Asks.run_bind (asks_refusing _) fun _ => ?_
    cases howner : claims.userId with
    | error rejection => exact asks_run_throw _
    | ok owner =>
      rw [refusing, pure_bind]
      refine Asks.run_bind (asks_checkStamp (hstamp claims owner rfl howner) d claims) fun _ => ?_
      refine Asks.run_bind (asks_checkKey (fun key hown => ?_) d) fun _ => ?_
      · exact hkey claims owner key rfl howner hown
      · rw [pure_bind]
        exact hf claims owner rfl howner

/-- Once a token was verified, its validation asks only for what concerns its user and its key. -/
theorem asks_validateVerified : (validateVerified d kind verdict).run.Asks P := by
  rw [← bind_pure (validateVerified d kind verdict)]
  exact asks_validateVerified_bind hstamp hkey fun _ _ _ _ => asks_run_pure _

end

/-- What an exchange of a refresh token does once the token was validated. -/
def exchange (d : Deployment) (validated : Token.Validated) : Service Token.Issued := do
  let refreshKey ← refusing validated.claims.key
  match ← Backend.findStamp validated.userId with
  | none => throw (.rejected .invalidSecurityStamp)
  | some stamp => issue d ⟨validated.userId, stamp⟩ .access (some refreshKey)

theorem refreshAccess_eq (d : Deployment) (token : String) :
    refreshAccess d token = validate d token .refresh >>= exchange d := rfl

theorem refreshAccess_run_eq (d : Deployment) (token : String) :
    (refreshAccess d token).run = .call (.verify token) fun verdict =>
      (validateVerified d .refresh verdict >>= exchange d).run := by
  rw [refreshAccess_eq, ExceptT.run_bind, validate_run_eq]
  rfl

/-- A service has failed with a rejection, or else as a lookup of the stamp of a user did. -/
def HasRefused {α : Type} (user : UserId) (rejection : Rejection) (r : Except Failure α)
    (log : Log) : Prop :=
  r = .error (.rejected rejection) ∨
    ∃ failure, r = .error failure ∧ ⟨.findStamp user, .error failure⟩ ∈ log

/-- **A service refuses a token of a user.**  It ends, and however it does, it has asked for the
verification of the token first and then refused it. -/
def Refuses {α : Type} (d : Deployment) (kind : Token.Kind) (user : UserId) (token : String)
    (x : Service α) (w : World) : Prop :=
  (∃ log r w', x.run.Transcript log r ∧ outside.Follows w log w') ∧
  ∀ log r w', x.run.Transcript log r → outside.Follows w log w' →
    ∃ verdict rest, log = ⟨.verify token, verdict⟩ :: rest ∧
      HasRefused user (refusal d.tokens kind verdict) r rest

variable {d : Deployment} {user : UserId} {stamp : SecurityStamp} {w : World} {s : World × Log}

/-- A token with a dead stamp does not pass the check of its stamp. -/
theorem ensures_checkStamp_of_dead (hw : Dead user stamp s.1) {claims : Token.Claims}
    (hstamp : claims.stamp? = some stamp.text) :
    outside.logged.Ensures (checkStamp d user claims).run s fun r s' =>
      HasRefused user .invalidSecurityStamp r s'.2 := by
  have hclaimed : claims.stamp = .ok stamp := by
    simp [Token.Claims.stamp, hstamp, Except.toOption]
  have hread : outside.Ensures (Cached.stamp user) s.1 fun cached? v =>
      cached?.map (·.stamp) ≠ some stamp ∧ v.store.stampOf user ≠ some stamp := by
    refine ensures_read (.securityStamp user) rfl (fun _ h => h) (fun v hv => ?_)
      fun v value item hv hheld hitem => ?_
    · exact ⟨by simp, hv.store ▸ hw.stored⟩
    · exact ⟨by simpa using hw.cached value item hheld hitem, hv.store ▸ hw.stored⟩
  rw [checkStamp, hclaimed, refusing, pure_bind, ensures_run_bind, ensures_run_lift]
  refine hread.logged.mono fun cached? s' hs' => ?_
  obtain ⟨hcached, hstored⟩ := hs'
  dsimp only
  rw [if_neg hcached, ensures_run_bind]
  refine (ensures_request (I := Backend) (r := .findStamp user)).mpr ?_
  rintro (failure | current?) s'' ⟨ha, hlog⟩
  · refine .inr ⟨failure, rfl, ?_⟩
    rw [hlog]
    exact List.mem_append_right _ List.mem_cons_self
  · obtain rfl := (findStamp_answers ha).2 current? rfl
    dsimp only
    rw [if_neg hstored]
    exact ensures_run_throw.mpr (.inl rfl)

/-- **Once the token was verified, a dead stamp is all that is needed to refuse it.** -/
theorem ensures_validateVerified_of_dead (hw : Dead user stamp s.1) {claims : Token.Claims}
    (hsubject : claims.subject = user.text) (hstamp : claims.stamp? = some stamp.text)
    {verdict : Except Rejection Token.Claims} (hverdict : ∀ c, verdict = .ok c → c = claims)
    (kind : Token.Kind) :
    outside.logged.Ensures (validateVerified d kind verdict).run s fun r s' =>
      HasRefused user (refusal d.tokens kind verdict) r s'.2 := by
  cases verdict with
  | error rejection => exact ensures_run_throw.mpr (.inl rfl)
  | ok c =>
    obtain rfl := hverdict c rfl
    rw [validateVerified, refusal]
    cases checkClaims d.tokens c kind with
    | error rejection => exact ensures_run_throw.mpr (.inl rfl)
    | ok _ =>
      have huser : c.userId = .ok user := by
        rw [Token.Claims.userId, hsubject, UserId.ofText_text]
      rw [huser, refusing, refusing, pure_bind, pure_bind, ensures_run_bind]
      refine (ensures_checkStamp_of_dead hw hstamp).mono fun r s' hr => ?_
      rcases hr with rfl | ⟨failure, rfl, hmem⟩
      · exact .inl rfl
      · exact .inr ⟨failure, rfl, hmem⟩

/-- A service that verifies a token before anything else refuses it, if it refuses it after
any verification that gives nothing but the claims that were signed. -/
theorem refuses_of_verified {α : Type} {x : Service α} {kind : Token.Kind} {token : String}
    {claims : Token.Claims} {next : Except Rejection Token.Claims → Service α}
    (hx : x.run = .call (.verify token) fun verdict => (next verdict).run)
    (htoken : token = w.signer.sign claims)
    (hnext : ∀ v verdict, Drifts w v → (∀ c, verdict = .ok c → c = claims) →
      outside.logged.Ensures (next verdict).run (v, []) fun r s' =>
        HasRefused user (refusal d.tokens kind verdict) r s'.2) :
    Refuses d kind user token x w := by
  refine ⟨⟨_, _, _, transcript_exchanges x.run w, follows_exchanges x.run w⟩, ?_⟩
  intro log r w' ht hf
  rw [hx] at ht
  obtain ⟨verdict, rest, rfl, hrest⟩ := transcript_call_iff.mp ht
  obtain ⟨m, ⟨v, hv, ha⟩, hfrest⟩ := follows_cons_iff.mp hf
  obtain ⟨rfl, rfl⟩ := verify_answered ha
  refine ⟨_, rest, rfl, hnext m _ hv (fun c hc => ?_) _ _ _ hrest (hfrest.logged [])⟩
  rw [htoken, hv.signer] at hc
  exact Jwt.Signer.eq_of_verify_sign hc

/-- **A token with a dead stamp is refused**, as a token of either kind and in exchange for
another. -/
theorem refuses_of_dead (hw : Dead user stamp w) {claims : Token.Claims}
    (hsubject : claims.subject = user.text) (hstamp : claims.stamp? = some stamp.text)
    {token : String} (htoken : token = w.signer.sign claims) :
    (∀ kind, Refuses d kind user token (validate d token kind) w) ∧
      Refuses d .refresh user token (refreshAccess d token) w := by
  constructor
  · intro kind
    refine refuses_of_verified (validate_run_eq d token kind) htoken fun v verdict hv hverdict => ?_
    exact ensures_validateVerified_of_dead (hw.drifts hv) hsubject hstamp hverdict kind
  · refine refuses_of_verified (refreshAccess_run_eq d token) htoken fun v verdict hv hverdict => ?_
    rw [ensures_run_bind]
    refine (ensures_validateVerified_of_dead (s := (v, [])) (hw.drifts hv) hsubject hstamp hverdict
      .refresh).mono fun r s' hr => ?_
    rcases hr with rfl | ⟨failure, rfl, hmem⟩
    · exact .inl rfl
    · exact .inr ⟨failure, rfl, hmem⟩

/-! ## Histories after a rotation -/

/-- Every call leaves a stamp dead that is not given anew. -/
theorem Call.leavesDead (c : Call) : LeavesDead user stamp (c.service d) := by
  cases c with
  | issue subject kind refreshKey =>
    exact leavesDead_of_asks (asks_issue allows_spares d subject kind refreshKey
      fun _ _ _ => trivial)
  | issuePair subject =>
    exact leavesDead_of_asks (asks_issuePair allows_spares d subject fun _ _ _ => trivial)
  | validate token kind => exact leavesDead_validate token kind
  | refreshAccess token => exact leavesDead_refreshAccess token
  | revoke user claims =>
    exact leavesDead_of_asks (asks_revoke allows_spares.toAllowsPlain user claims)
  | rotateStamp owner => exact leavesDead_rotateStamp owner

/-- **A dead stamp stays dead**, whatever follows, if it is not given anew. -/
theorem History.dead {start : World} {log : Log} (h : History d start log w)
    (hfresh : stamp.uuid ∉ identifiers log) (hstart : Dead user stamp start) :
    Dead user stamp w := by
  induction h with
  | start => exact hstart
  | drift h hw ih => exact (ih hfresh).drifts hw
  | @call log log' w w' h c r hc ht hf ih =>
    rw [identifiers_append, List.mem_append, not_or] at hfresh
    have hnew : ∀ e ∈ log', e ≠ ⟨.fresh, stamp.uuid⟩ := by
      rintro e he rfl
      exact hfresh.2 (mem_identifiers.mpr he)
    exact c.leavesDead w (ih hfresh.1) _ _ _ ht (hf.only hnew)

/-- A rotation has written its new stamp: it has succeeded, or it has failed as removing the
token records did. -/
def HasWritten (user : UserId) (log : Log) (r : Except Failure SecurityStamp) : Prop :=
  (∃ fresh, r = .ok fresh) ∨
    ∃ failure, r = .error failure ∧ ⟨.deleteTokens user, .error failure⟩ ∈ log

/-- **A rotation that has written its new stamp leaves every other stamp of the user dead.** -/
theorem dead_of_rotateStamp {log : Log} {r : Except Failure SecurityStamp} {w' : World}
    (ht : (rotateStamp user).run.Transcript log r) (hf : outside.Follows w log w')
    (hwritten : HasWritten user log r) (hfresh : stamp.uuid ∉ identifiers log) :
    Dead user stamp w' := by
  rw [rotateStamp_eq] at ht
  rcases transcript_run_bind_iff.mp ht with ⟨_, uuid, rest, rfl, hdraw, hrest⟩ | ⟨_, _, hdraw⟩
  case inr =>
    obtain ⟨_, hok, _⟩ := transcript_run_lift_iff.mp hdraw
    cases hok
  obtain ⟨_, hok, hdraw⟩ := transcript_run_lift_iff.mp hdraw
  obtain rfl := Except.ok.inj hok
  obtain rfl := transcript_request_iff.mp hdraw
  obtain ⟨v, -, hf⟩ := follows_append_iff.mp hf
  have hne : SecurityStamp.mk uuid ≠ stamp := by
    rintro rfl
    exact hfresh (mem_identifiers.mpr List.mem_cons_self)
  rcases transcript_run_bind_iff.mp hrest with
    ⟨write, _, forget, rfl, hwrite, hforget⟩ | ⟨failure, rfl, hwrite⟩
  · obtain ⟨m, hfwrite, hfforget⟩ := follows_append_iff.mp hf
    have hdead : Dead user stamp m := by
      rcases ensures_writeStamp hne _ _ _ hwrite hfwrite with ⟨-, hdead⟩ | ⟨⟨_, hfailed⟩, -⟩
      · exact hdead
      · cases hfailed
    have hasks : (do
        forgetTokens user
        return SecurityStamp.mk uuid : Service SecurityStamp).run.Asks (Spares user stamp) :=
      Asks.run_bind asks_forgetTokens_spares fun _ => asks_run_pure _
    exact ensures_of_asks hasks (fun _ _ _ _ hr ha hw => hw.answers hr ha) hdead _ _ _ hforget
      hfforget
  · -- The write has failed, so the token records were not asked to be removed.
    rcases hwritten with ⟨_, hok⟩ | ⟨_, _, hmem⟩
    · cases hok
    · have hasks : (writeStamp user ⟨uuid⟩).run.Asks (· ≠ Backend.Request.deleteTokens user) :=
        asks_writeStamp nofun nofun
      rcases List.mem_append.mp hmem with hmem | hmem
      · exact nomatch List.mem_singleton.mp hmem
      · exact absurd rfl (hasks _ _ hwrite _ hmem)

/-- Neither is an identifier given twice, nor is one given that is the stamp of a user at the
start. -/
structure Fresh (start : World) (log : Log) : Prop where
  distinct : (identifiers log).Nodup
  new : ∀ user stamp, start.store.stampOf user = some stamp → stamp.uuid ∉ identifiers log

theorem Fresh.not_mem {start : World} {log log' : Log} (h : Fresh start (log ++ log'))
    (hstamp : Known start log stamp) : stamp.uuid ∉ identifiers log' := by
  have hdistinct := h.distinct
  rw [identifiers_append, List.nodup_append] at hdistinct
  rcases hstamp with ⟨owner, howner⟩ | hgiven
  · intro hmem
    refine h.new owner stamp howner ?_
    rw [identifiers_append]
    exact List.mem_append_right _ hmem
  · exact fun hmem => hdistinct.2.2 _ hgiven _ hmem rfl

/-- **A rotation is final.**  Every token that was signed for a user before a rotation has
written the new stamp of the user is refused in every later world, whatever calls follow: as a
token of either kind and in exchange for another.  Unless its verification or the check of its
claims is against it, it is refused for its stamp. -/
theorem rotation_is_final {start w₁ w₂ w₃ : World} {before rotation after : Log}
    {r : Except Failure SecurityStamp} {token : String}
    (hbefore : History d start before w₁) (hsigned : Signed before user token)
    (hrotation : (rotateStamp user).run.Transcript rotation r)
    (hfollows : outside.Follows w₁ rotation w₂) (hwritten : HasWritten user rotation r)
    (hafter : History d w₂ after w₃) (hfresh : Fresh start (before ++ rotation ++ after)) :
    (∀ kind, Refuses d kind user token (validate d token kind) w₃) ∧
      Refuses d .refresh user token (refreshAccess d token) w₃ := by
  -- The token was signed with a stamp that was known before the rotation.
  obtain ⟨claims, hsubject, hsign⟩ := hsigned
  obtain ⟨htoken, owner, stamp, howner, hstamp, hknown⟩ := hbefore.sound.signed claims token hsign
  obtain rfl : owner = user := UserId.text_injective (howner.symm.trans hsubject)
  -- So the stamp is none of the identifiers given since: it dies with the rotation and stays dead.
  rw [List.append_assoc] at hfresh
  have hnot := hfresh.not_mem hknown
  rw [identifiers_append, List.mem_append, not_or] at hnot
  have hdead : Dead owner stamp w₃ :=
    hafter.dead hnot.2 (dead_of_rotateStamp hrotation hfollows hwritten hnot.1)
  have hsigner : w₃.signer = start.signer := by
    rw [hafter.sound.signer, signer_of_follows hfollows, hbefore.sound.signer]
  exact refuses_of_dead hdead hsubject hstamp (hsigner ▸ htoken)

/-- A user with the first identifier as the stamp. -/
def alice : Token.Subject := ⟨⟨1⟩, ⟨.repeating 0⟩⟩

/-- A world with one user, and sixteen identifiers to give. -/
def oneUser : World :=
  { World.ofStore { Store.empty with
      users := Table.empty.insert alice.userId ⟨"alice", alice.stamp, [], []⟩ } with
    supply := .repeating
    drawn := 1 }

theorem stamp_of_oneUser {user : UserId} {stamp : SecurityStamp}
    (h : oneUser.store.stampOf user = some stamp) : stamp = alice.stamp := by
  change (Table.find? (Table.empty.insert _ _) user).map _ = some stamp at h
  rw [Table.find?_insert] at h
  split at h
  · exact (Option.some.inj h).symm
  · cases h

/-- A user is issued an access token, and then the stamp of the user is rotated. -/
theorem rotation_is_final_after_issue :
    ∃ issued w,
      (World.run (issue ⟨.empty, 60, {}⟩ alice .access none).run oneUser).1 = .ok issued ∧
      w = (World.run (rotateStamp alice.userId).run
        (World.run (issue ⟨.empty, 60, {}⟩ alice .access none).run oneUser).2).2 ∧
      (∀ kind, Refuses ⟨.empty, 60, {}⟩ kind alice.userId issued.text
        (validate ⟨.empty, 60, {}⟩ issued.text kind) w) ∧
      Refuses ⟨.empty, 60, {}⟩ .refresh alice.userId issued.text
        (refreshAccess ⟨.empty, 60, {}⟩ issued.text) w := by
  obtain ⟨issued, hissued⟩ : ∃ issued,
      (World.run (issue ⟨.empty, 60, {}⟩ alice .access none).run oneUser).1 = .ok issued := ⟨_, rfl⟩
  have hissue := transcript_exchanges (issue ⟨.empty, 60, {}⟩ alice .access none).run oneUser
  rw [hissued] at hissue
  have hbefore : History ⟨.empty, 60, {}⟩ oneUser _ _ :=
    History.start.run (.issue alice .access none) rfl
  have hsigned := (signed_of_issue hissue).append_left []
  obtain ⟨renewed, hrenewed⟩ : ∃ renewed, (World.run (rotateStamp alice.userId).run
      (World.run (issue ⟨.empty, 60, {}⟩ alice .access none).run oneUser).2).1 = .ok renewed :=
    ⟨_, rfl⟩
  refine ⟨issued, _, hissued, rfl, rotation_is_final hbefore hsigned
    (transcript_exchanges _ _) (follows_exchanges _ _) (.inl ⟨renewed, hrenewed⟩) .start ?_⟩
  have hgiven : identifiers ([] ++
      World.exchanges (issue ⟨.empty, 60, {}⟩ alice .access none).run oneUser ++
      World.exchanges (rotateStamp alice.userId).run
        (World.run (issue ⟨.empty, 60, {}⟩ alice .access none).run oneUser).2 ++ []) =
      [.repeating 1, .repeating 2, .repeating 3] := rfl
  refine ⟨hgiven ▸ by decide, fun user stamp hstamp => ?_⟩
  obtain rfl : stamp = ⟨.repeating 0⟩ := stamp_of_oneUser hstamp
  exact hgiven ▸ by decide

end AccessControl.Session
