import AccessControl.Proofs.Session.History

/-! # Stamps that are dead

A stamp is dead for a user if it is neither stored for the user nor cached (`Dead`).  A
request revives it only by storing or caching that very stamp (`Spares`).  The services store
fresh stamps only, and cache a stamp only after they have found it in the store; so as long as
the stamp is not given as a fresh identifier, it stays dead.
-/
namespace AccessControl.Session
open World Outside Program

/-- The outside that never gives one identifier. -/
abbrev outsideWithout (uuid : Uuid) : Outside Backend World := outside.only (· ≠ ⟨.fresh, uuid⟩)

/-- **A stamp is neither stored for a user nor cached.** -/
structure Dead (user : UserId) (stamp : SecurityStamp) (w : World) : Prop where
  stored : w.store.stampOf user ≠ some stamp
  cached : ∀ value (item : Cached.Stamp), w.Holds (.securityStamp user) value →
    Json.decode? value = some item → item.stamp ≠ stamp

/-- A request does not revive a stamp. -/
def Spares (user : UserId) (stamp : SecurityStamp) : Backend.Request → Prop
  | .updateStamp owner stamp' => owner = user → stamp' ≠ stamp
  | .cacheSet key value _ => key = (CacheKey.securityStamp user).text →
    ∀ item : Cached.Stamp, Json.decode? value = some item → item.stamp ≠ stamp
  | _ => True

variable {user : UserId} {stamp : SecurityStamp} {v w w' : World} {r : Backend.Request}

theorem Dead.onlyCaches {added : CacheKey → String → Prop} (h : Dead user stamp v)
    (hw : OnlyCaches added v w)
    (hadded : ∀ value (item : Cached.Stamp), added (.securityStamp user) value →
      Json.decode? value = some item → item.stamp ≠ stamp) : Dead user stamp w where
  stored := by
    rw [hw.store]
    exact h.stored
  cached value item hheld hitem := by
    rcases hw.held _ value hheld with hv | hspoilt | hnew
    · exact h.cached value item hv hitem
    · exact absurd (hitem.symm.trans hspoilt) (by simp)
    · exact hadded value item hnew hitem

theorem Dead.drifts (h : Dead user stamp v) (hw : Drifts v w) : Dead user stamp w :=
  h.onlyCaches hw fun _ _ hno => hno.elim

theorem Dead.answer (h : Dead user stamp w) (hr : Spares user stamp r) :
    Dead user stamp (World.answer r w).2 where
  stored := by
    intro hstamp
    rcases stampOf_answer_eq_some hstamp with hold | rfl
    · exact h.stored hold
    · exact hr rfl rfl
  cached value item hheld hitem := by
    rcases holds_answer hheld with hold | ⟨seconds, rfl⟩
    · exact h.cached value item hold hitem
    · exact hr rfl item hitem

/-- **What spares a dead stamp leaves it dead**, whether it is done or fails. -/
theorem Dead.answers (h : Dead user stamp w) {mayFail : Backend.Request → Bool}
    (hr : Spares user stamp r) {a : Backend.Answer r}
    (ha : (unreliable mayFail).Answers r w a w') : Dead user stamp w' :=
  preserved_of_answers Dead.drifts (·.answer hr) ha h

/-- The requests that all services of sessions may make spare every stamp. -/
theorem allows_spares : Allows (Spares user stamp) where
  get _ := trivial
  delete _ := trivial
  live _ _ hkey := absurd (CacheKey.text_injective hkey) (by simp)
  fresh := trivial
  now := trivial
  verify _ := trivial
  createToken _ := trivial
  isTokenLive _ _ _ := trivial
  deleteToken _ _ := trivial
  deleteTokens _ := trivial
  findStamp _ := trivial

/-! ## What the services leave dead -/

/-- A service leaves a stamp dead, as long as it is not given as a fresh identifier. -/
abbrev LeavesDead {α : Type} (user : UserId) (stamp : SecurityStamp) (x : Service α) : Prop :=
  (outsideWithout stamp.uuid).Preserves (Dead user stamp) x

variable {α : Type} {d : Deployment}

theorem leavesDead_of_asks {x : Service α} (hx : x.run.Asks (Spares user stamp)) :
    LeavesDead user stamp x :=
  (preserves_of_asks hx fun _ _ _ _ hr ha hw => hw.answers hr ha).only

/-- **A dead stamp is not found in the store, and so it is not cached again.** -/
theorem leavesDead_checkStamp (owner : UserId) (claims : Token.Claims) :
    LeavesDead user stamp (checkStamp d owner claims) := by
  refine Preserves.bind (leavesDead_of_asks (asks_refusing _)) fun claimed => ?_
  have hread : (Cached.stamp owner).Asks (Spares user stamp) := asks_read trivial trivial
  refine Preserves.bind (leavesDead_of_asks hread.run_lift) fun cached? => ?_
  split
  · exact preserves_pure _
  · intro w hw
    rw [ensures_run_bind]
    refine (ensures_request (I := Backend) (r := .findStamp owner)).mpr fun current v ha => ?_
    obtain ⟨hv, hfound⟩ := findStamp_answers ha.2
    cases current with
    | error failure => exact hw.drifts hv
    | ok current? =>
      obtain rfl := hfound current? rfl
      dsimp only
      -- Only the stamp that was found is cached, and a dead one is not found.
      split
      · rename_i hcurrent
        rw [ensures_run_lift]
        refine (ensures_store fun v' hv' => ?_).only
        refine (hw.drifts hv).onlyCaches hv' ?_
        rintro value item ⟨hkey, rfl⟩ hitem
        obtain rfl := Json.eq_of_decode?_write hitem
        have howner : user = owner := CacheKey.securityStamp.inj hkey
        rintro rfl
        exact hw.stored (howner ▸ hcurrent)
      · exact ensures_run_throw.mpr (hw.drifts hv)

theorem leavesDead_validate (token : String) (kind : Token.Kind) :
    LeavesDead user stamp (validate d token kind) := by
  refine Preserves.bind (leavesDead_of_asks (asks_verify (allows_spares.verify token)))
    fun claims => ?_
  refine Preserves.bind (leavesDead_of_asks (asks_refusing _)) fun _ => ?_
  refine Preserves.bind (leavesDead_of_asks (asks_refusing _)) fun owner => ?_
  refine Preserves.bind (leavesDead_checkStamp owner claims) fun _ => ?_
  exact Preserves.bind (leavesDead_of_asks (asks_checkKey (fun key _ => allows_spares.key owner key)
    d)) fun _ => preserves_pure _

theorem leavesDead_refreshAccess (token : String) :
    LeavesDead user stamp (refreshAccess d token) := by
  refine Preserves.bind (leavesDead_validate token .refresh) fun validated => ?_
  refine Preserves.bind (leavesDead_of_asks (asks_refusing _)) fun refreshKey => ?_
  refine Preserves.bind (leavesDead_of_asks (asks_backend (.findStamp _) trivial)) fun stamp? => ?_
  split
  · exact preserves_throw _
  · exact leavesDead_of_asks (asks_issue allows_spares d _ .access _ fun _ _ _ => trivial)

/-! ## Rotating -/

theorem asks_writeStamp_spares {owner : UserId} {fresh : SecurityStamp} (h : fresh ≠ stamp) :
    (writeStamp owner fresh).run.Asks (Spares user stamp) :=
  asks_writeStamp (allows_spares.delete _) fun _ => h

theorem asks_forgetTokens_spares {owner : UserId} :
    (forgetTokens owner).run.Asks (Spares user stamp) :=
  asks_forgetTokens (allows_spares.delete _) trivial

theorem leavesDead_rotateStamp (owner : UserId) : LeavesDead user stamp (rotateStamp owner) := by
  rw [rotateStamp_eq]
  intro w hw
  rw [ensures_run_bind, ensures_run_lift]
  refine (ensures_request (I := Backend) (r := .fresh)).mpr ?_
  rintro uuid v ⟨hfresh, ha⟩
  have hne : SecurityStamp.mk uuid ≠ stamp := by
    rintro rfl
    exact hfresh rfl
  refine Preserves.bind (leavesDead_of_asks (asks_writeStamp_spares hne)) (fun _ => ?_) v
    (hw.answers (r := .fresh) trivial ha)
  exact Preserves.bind (leavesDead_of_asks asks_forgetTokens_spares) fun _ => preserves_pure _

/-- **A stamp that another was written over is dead**: it is not the stored one, and after
the write nothing is left of it in the cache.  A write that fails changes nothing. -/
theorem ensures_writeStamp {fresh : SecurityStamp} (h : fresh ≠ stamp) :
    outside.Ensures (writeStamp user fresh).run w fun r w' =>
      (r = .ok () ∧ Dead user stamp w') ∨ (∃ failure, r = .error failure) ∧ Drifts w w' := by
  rw [writeStamp, ensures_run_bind, ensures_run_lift]
  refine ensures_remove rfl fun v hv _ => ?_
  dsimp only
  -- What was removed so far may be back by the time of the write; the second removal counts.
  rw [ensures_run_bind, ensures_run_outcome]
  refine ensures_updateStamp (fun v' store hv' hstore => ?_) fun v' failure hv' => ?_
  · dsimp only
    rw [ensures_run_bind, ensures_run_lift]
    refine ensures_remove rfl fun v'' hv'' hnone => ?_
    refine ensures_run_conclude.mpr
      (.inl ⟨rfl, ?_, fun value _ hheld => absurd hheld (hnone value)⟩)
    rw [hv''.store, Store.stampOf_updateStamp hstore, if_pos rfl]
    exact fun heq => h (Option.some.inj heq)
  · dsimp only
    rw [ensures_run_bind, ensures_run_lift]
    refine ensures_remove rfl fun v'' hv'' _ => ?_
    exact ensures_run_conclude.mpr (.inr ⟨⟨failure, rfl⟩, (hv.trans hv').trans hv''⟩)

end AccessControl.Session
