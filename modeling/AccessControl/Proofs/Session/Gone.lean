import AccessControl.Proofs.Session.Dead

/-! # Keys that are gone

The key of a token is gone for a user if there is neither a record of it nor an item in the cache
that says that it is live (`Gone`).  A request brings it back only by storing a record of that
very key or by caching it as live (`KeepsAway`).  Records are stored for fresh keys only, and a
key is cached as live only with its record or after the record was found; so as long as the key
is not given as a fresh identifier, it stays gone.
-/
namespace AccessControl.Session
open World Outside Program

/-- **There is no record of a key of a user, and it is not cached as live.** -/
structure Gone (user : UserId) (key : TokenKey) (w : World) : Prop where
  stored : w.store.tokens.find? (user, key) = none
  cached : ∀ value (item : Cached.LiveToken), w.Holds (.tokenValidity user key) value →
    Json.decode? value ≠ some item

/-- A request does not bring a key back. -/
def KeepsAway (user : UserId) (key : TokenKey) : Backend.Request → Prop
  | .createToken record => (record.userId, record.key) ≠ (user, key)
  | .cacheSet text value _ => text = (CacheKey.tokenValidity user key).text →
    ∀ item : Cached.LiveToken, Json.decode? value ≠ some item
  | _ => True

variable {user owner : UserId} {key other : TokenKey} {v w w' : World} {r : Backend.Request}

/-- A key of a user is not cached as live. -/
def Uncached (user : UserId) (key : TokenKey) (w : World) : Prop :=
  ∀ value (item : Cached.LiveToken), w.Holds (.tokenValidity user key) value →
    Json.decode? value ≠ some item

theorem Uncached.drifts (h : Uncached user key v) (hw : Drifts v w) : Uncached user key w := by
  intro value item hheld
  rcases hw.held _ value hheld with hv | hspoilt | hno
  · exact h value item hv
  · have hnone : Json.decode? (α := Cached.LiveToken) value = none := hspoilt
    simp [hnone]
  · exact hno.elim

theorem Uncached.answer (h : Uncached user key w) (hr : KeepsAway user key r) :
    Uncached user key (World.answer r w).2 := by
  intro value item hheld
  rcases holds_answer hheld with hold | ⟨seconds, rfl⟩
  · exact h value item hold
  · exact hr rfl item

theorem Uncached.answers (h : Uncached user key w) {mayFail : Backend.Request → Bool}
    (hr : KeepsAway user key r) {a : Backend.Answer r}
    (ha : (unreliable mayFail).Answers r w a w') : Uncached user key w' :=
  preserved_of_answers Uncached.drifts (·.answer hr) ha h

theorem Gone.drifts (h : Gone user key v) (hw : Drifts v w) : Gone user key w where
  stored := by
    rw [hw.store]
    exact h.stored
  cached := Uncached.drifts h.cached hw

theorem Gone.answer (h : Gone user key w) (hr : KeepsAway user key r) :
    Gone user key (World.answer r w).2 where
  stored := by
    refine unrecorded_answer ?_ h.stored
    rintro record rfl
    exact hr
  cached := Uncached.answer h.cached hr

/-- **What keeps a key away leaves it gone**, whether it is done or fails. -/
theorem Gone.answers (h : Gone user key w) {mayFail : Backend.Request → Bool}
    (hr : KeepsAway user key r) {a : Backend.Answer r}
    (ha : (unreliable mayFail).Answers r w a w') : Gone user key w' :=
  preserved_of_answers Gone.drifts (·.answer hr) ha h

/-- A gone key has no live record. -/
theorem Gone.not_live (h : Gone user key w) (now : Instant) :
    w.store.isTokenLive user key now = false := by
  rw [Store.isTokenLive, h.stored]

theorem allowsPlain_keepsAway : AllowsPlain (KeepsAway user key) where
  get _ := trivial
  delete _ := trivial
  fresh := trivial
  now := trivial
  verify _ := trivial
  isTokenLive _ _ _ := trivial
  deleteToken _ _ := trivial
  deleteTokens _ := trivial
  findStamp _ := trivial

theorem allowsStamp_keepsAway : AllowsStamp (KeepsAway user key) owner :=
  allowsPlain_keepsAway.stamp fun _ _ htext => absurd (CacheKey.text_injective htext) (by simp)

/-- To cache another key as live keeps a key away. -/
theorem keepsAway_live (h : (owner, other) ≠ (user, key)) (value : String) (seconds : UInt32) :
    KeepsAway user key (.cacheSet (CacheKey.tokenValidity owner other).text value seconds) := by
  intro htext
  obtain ⟨rfl, rfl⟩ := CacheKey.tokenValidity.inj (CacheKey.text_injective htext)
  exact absurd rfl h

/-! ## What the services leave gone -/

/-- A service leaves a key gone, as long as it is not given as a fresh identifier. -/
abbrev LeavesGone {α : Type} (user : UserId) (key : TokenKey) (x : Service α) : Prop :=
  (outsideWithout key.uuid).Preserves (Gone user key) x

variable {α : Type} {d : Deployment}

theorem leavesGone_of_asks {x : Service α} (hx : x.run.Asks (KeepsAway user key)) :
    LeavesGone user key x :=
  (preserves_of_asks hx fun _ _ _ _ hr ha hw => hw.answers hr ha).only

/-- **A token is issued with another key.** -/
theorem leavesGone_issue (subject : Token.Subject) (kind : Token.Kind)
    (refreshKey : Option TokenKey) : LeavesGone user key (issue d subject kind refreshKey) := by
  rw [issue_eq]
  intro w hw
  rw [ensures_run_bind, ensures_run_lift]
  refine (ensures_request (I := Backend) (r := .fresh)).mpr ?_
  rintro uuid v ⟨hfresh, ha⟩
  have hne : (subject.userId, TokenKey.mk uuid) ≠ (user, key) := by
    intro heq
    obtain ⟨-, rfl⟩ := Prod.mk.inj heq
    exact hfresh rfl
  have hasks : (issueWith d subject kind refreshKey ⟨uuid⟩).run.Asks (KeepsAway user key) :=
    asks_issueWith trivial trivial d subject kind refreshKey (fun _ _ _ => trivial)
      (fun _ => hne) fun seconds => keepsAway_live hne _ seconds
  exact leavesGone_of_asks hasks v (hw.answers (r := .fresh) trivial ha)

theorem leavesGone_issuePair (subject : Token.Subject) :
    LeavesGone user key (issuePair d subject) :=
  Preserves.bind (leavesGone_issue subject .refresh none) fun _ =>
    Preserves.bind (leavesGone_issue subject .access _) fun _ => preserves_pure _

/-- What is not cached is not found in the cache. -/
theorem ensures_isLive_of_uncached (h : Uncached user key w) :
    outside.Ensures (Cached.isLive user key) w fun cached v => cached = false ∧ Drifts w v := by
  rw [Cached.isLive, ensures_bind]
  refine ensures_read (.tokenValidity user key) rfl (fun _ h => h) (fun v hv => ?_)
    fun v value item hv hheld hitem => ?_
  · exact ensures_pure.mpr ⟨rfl, hv⟩
  · exact absurd hitem (h value item hheld)

/-- **A key that is gone does not pass its check, and is not cached by it.** -/
theorem ensures_checkKey_of_gone (hw : Gone user key w) {claims : Token.Claims}
    (hkey : claims.key = .ok key) :
    outside.Ensures (checkKey d user claims).run w fun r w' =>
      (∃ failure, r = .error failure) ∧ Gone user key w' := by
  have hread : outside.Ensures (Cached.isLive user key) w fun cached v =>
      cached = false ∧ Gone user key v :=
    (ensures_isLive_of_uncached hw.cached).mono fun _ _ h => ⟨h.1, hw.drifts h.2⟩
  rw [checkKey, hkey, refusing, pure_bind, ensures_run_bind, ensures_run_lift]
  refine hread.mono fun cached v hv => ?_
  obtain ⟨rfl, hgone⟩ := hv
  dsimp only
  rw [if_neg Bool.false_ne_true, ensures_run_bind, ensures_run_lift]
  refine (ensures_request (I := Backend) (r := .now)).mpr fun now v' ha => ?_
  have hgone' := hgone.answers (r := .now) trivial ha
  dsimp only
  rw [ensures_run_bind]
  refine (ensures_request (I := Backend) (r := .isTokenLive user key now)).mpr ?_
  rintro (failure | live) v'' ha
  · exact ⟨⟨failure, rfl⟩, hgone'.answers (r := .isTokenLive user key now) trivial ha⟩
  · obtain ⟨hv'', hlive⟩ := isTokenLive_answers ha
    obtain rfl : live = false := (hlive live rfl).trans (hgone'.not_live now)
    dsimp only
    rw [if_neg Bool.false_ne_true]
    exact ensures_run_throw.mpr ⟨⟨_, rfl⟩, hgone'.drifts hv''⟩

theorem leavesGone_checkKey (owner : UserId) (claims : Token.Claims) :
    LeavesGone user key (checkKey d owner claims) := by
  by_cases hsame : owner = user ∧ claims.key = .ok key
  · obtain ⟨rfl, hkey⟩ := hsame
    intro w hw
    exact ((ensures_checkKey_of_gone hw hkey).mono fun _ _ h => h.2).only
  · refine leavesGone_of_asks (asks_checkKey (fun other hother => ?_) d)
    refine allowsPlain_keepsAway.key fun seconds => keepsAway_live ?_ _ seconds
    intro heq
    obtain ⟨rfl, rfl⟩ := Prod.mk.inj heq
    exact hsame ⟨rfl, hother⟩

theorem leavesGone_validate (token : String) (kind : Token.Kind) :
    LeavesGone user key (validate d token kind) := by
  refine Preserves.bind (leavesGone_of_asks (asks_verify (allowsPlain_keepsAway.verify token)))
    fun claims => ?_
  refine Preserves.bind (leavesGone_of_asks (asks_refusing _)) fun _ => ?_
  refine Preserves.bind (leavesGone_of_asks (asks_refusing _)) fun owner => ?_
  refine Preserves.bind (leavesGone_of_asks (asks_checkStamp allowsStamp_keepsAway d claims))
    fun _ => ?_
  exact Preserves.bind (leavesGone_checkKey owner claims) fun _ => preserves_pure _

theorem leavesGone_refreshAccess (token : String) :
    LeavesGone user key (refreshAccess d token) := by
  refine Preserves.bind (leavesGone_validate token .refresh) fun validated => ?_
  refine Preserves.bind (leavesGone_of_asks (asks_refusing _)) fun refreshKey => ?_
  refine Preserves.bind (leavesGone_of_asks (asks_backend (.findStamp _) trivial))
    fun stamp? => ?_
  split
  · exact preserves_throw _
  · exact leavesGone_issue _ .access _

/-- **Every call leaves a key gone that is not given anew.** -/
theorem Call.leavesGone (c : Call) : LeavesGone user key (c.service d) := by
  cases c with
  | issue subject kind refreshKey => exact leavesGone_issue subject kind refreshKey
  | issuePair subject => exact leavesGone_issuePair subject
  | validate token kind => exact leavesGone_validate token kind
  | refreshAccess token => exact leavesGone_refreshAccess token
  | revoke owner claims =>
    exact leavesGone_of_asks (asks_revoke allowsPlain_keepsAway owner claims)
  | rotateStamp owner =>
    exact leavesGone_of_asks (asks_rotateStamp allowsPlain_keepsAway owner fun _ => trivial)

/-! ## Revoking -/

/-- A record whose removal succeeds is no longer there. -/
theorem find?_of_deleteToken {a : Backend.Answer (.deleteToken user key)} {found : Bool}
    (h : outside.Answers (.deleteToken user key) w a w') (ha : a = .ok found) :
    w'.store.tokens.find? (user, key) = none := by
  subst ha
  obtain ⟨v, -, h⟩ := h
  obtain ⟨-, rfl⟩ := served_of_answered h fun _ h => nomatch Option.some.inj h
  show (v.store.tokens.erase (user, key)).find? (user, key) = none
  rw [Table.find?_erase, if_pos rfl]

/-- **A key that is removed is not cached**, and if it is removed with success it is gone. -/
theorem ensures_revokeKey :
    outside.Ensures (revokeKey user key).run w fun r w' =>
      Uncached user key w' ∧ (r = .ok () → Gone user key w') := by
  rw [revokeKey, ensures_run_bind, ensures_run_outcome]
  refine (ensures_request (I := Backend) (r := .deleteToken user key)).mpr fun deleted v ha => ?_
  dsimp only
  rw [ensures_run_bind, ensures_run_lift]
  refine ensures_remove rfl fun v' hv' hnone => ?_
  dsimp only
  have huncached : Uncached user key v' := fun value _ hheld => absurd hheld (hnone value)
  rw [ensures_run_bind, ensures_run_conclude]
  cases deleted with
  | error failure => exact ⟨huncached, nofun⟩
  | ok found =>
    refine ensures_run_pure.mpr ⟨huncached, fun _ => ⟨?_, huncached⟩⟩
    rw [hv'.store]
    exact find?_of_deleteToken ha rfl

section
variable {keys : List TokenKey} {t : Log} {ended : Except Failure Unit}

/-- If the revocation of a key fails, the removal of its record has failed. -/
theorem transcript_revokeKey_error {failure : Failure}
    (h : (revokeKey user key).run.Transcript t (.error failure)) :
    ⟨.deleteToken user key, .error failure⟩ ∈ t := by
  rw [revokeKey] at h
  obtain ⟨t₁, deleted, t₂, rfl, hdelete, h₁⟩ := transcript_run_outcome_bind_iff.mp h
  obtain rfl := transcript_request_iff.mp hdelete
  rcases transcript_run_bind_iff.mp h₁ with ⟨_, _, _, rfl, -, h₂⟩ | ⟨_, -, hremove⟩
  · rcases transcript_run_bind_iff.mp h₂ with ⟨_, _, _, -, -, h₃⟩ | ⟨_, heq, hconclude⟩
    · cases (transcript_run_pure_iff.mp h₃).2
    · obtain rfl := Except.error.inj heq
      obtain ⟨-, rfl⟩ := transcript_run_conclude_iff.mp hconclude
      exact List.mem_cons_self
  · obtain ⟨_, heq, -⟩ := transcript_run_lift_iff.mp hremove
    cases heq

/-- **The revocations of several keys are gone through one after the other**, and the first failure
is that of all. -/
theorem transcript_revokeKeys_cons (h : (revokeKeys user (key :: keys)).run.Transcript t ended) :
    ∃ t₁ first t₂ others, t = t₁ ++ t₂ ∧ (revokeKey user key).run.Transcript t₁ first ∧
      (revokeKeys user keys).run.Transcript t₂ others ∧ ended = first.bind fun _ => others := by
  rw [revokeKeys] at h
  obtain ⟨t₁, first, _, rfl, hfirst, h₁⟩ := transcript_run_outcome_bind_iff.mp h
  obtain ⟨t₂, others, _, rfl, hothers, h₂⟩ := transcript_run_outcome_bind_iff.mp h₁
  rcases transcript_run_bind_iff.mp h₂ with ⟨_, _, _, rfl, hconclude, h₃⟩ | ⟨_, rfl, hconclude⟩
  · obtain ⟨rfl, rfl⟩ := transcript_run_conclude_iff.mp hconclude
    obtain ⟨rfl, rfl⟩ := transcript_run_conclude_iff.mp h₃
    exact ⟨t₁, _, t₂, _, by simp, hfirst, hothers, rfl⟩
  · obtain ⟨rfl, rfl⟩ := transcript_run_conclude_iff.mp hconclude
    exact ⟨t₁, _, t₂, _, by simp, hfirst, hothers, rfl⟩

/-- **However the revocation of keys ends, each key is gone or the removal of its record has
failed**, and then the revocation has failed too. -/
theorem gone_or_failed_of_revokeKeys (ht : (revokeKeys user keys).run.Transcript t ended)
    (hf : outside.Follows w t w') (hkey : key ∈ keys) :
    Gone user key w' ∨ (∃ failure, ⟨.deleteToken user key, .error failure⟩ ∈ t) ∧
      ∃ failure, ended = .error failure := by
  induction keys generalizing t ended w with
  | nil => exact absurd hkey List.not_mem_nil
  | cons next keys ih =>
    obtain ⟨t₁, first, t₂, others, rfl, h₁, h₂, rfl⟩ := transcript_revokeKeys_cons ht
    obtain ⟨v, hf₁, hf₂⟩ := follows_append_iff.mp hf
    rcases List.mem_cons.mp hkey with rfl | hkey
    · cases first with
      | ok _ =>
        -- What follows does not bring the key back.
        have hgone : Gone user key v := (ensures_revokeKey t₁ _ v h₁ hf₁).2 rfl
        have hasks : (revokeKeys user keys).run.Asks (KeepsAway user key) :=
          asks_revokeKeys fun _ _ => ⟨trivial, trivial⟩
        exact .inl (preserves_of_asks hasks (fun _ _ _ _ hr ha hw => hw.answers hr ha) v hgone t₂
          others w' h₂ hf₂)
      | error failure =>
        exact .inr ⟨⟨failure, List.mem_append_left _ (transcript_revokeKey_error h₁)⟩, failure, rfl⟩
    · rcases ih h₂ hf₂ hkey with hgone | ⟨⟨failure, hmem⟩, failure', rfl⟩
      · exact .inl hgone
      · refine .inr ⟨⟨failure, List.mem_append_right _ hmem⟩, ?_⟩
        cases first with
        | ok _ => exact ⟨failure', rfl⟩
        | error failure => exact ⟨failure, rfl⟩

end

/-- **If keys are removed one after the other with success, all of them are gone.** -/
theorem ensures_revokeKeys (keys : List TokenKey) :
    outside.Ensures (revokeKeys user keys).run w fun r w' =>
      r = .ok () → ∀ key ∈ keys, Gone user key w' := by
  rintro t r w' ht hf rfl key hkey
  rcases gone_or_failed_of_revokeKeys ht hf hkey with hgone | ⟨-, failure, hfailed⟩
  · exact hgone
  · cases hfailed

end AccessControl.Session
