import AccessControl.Proofs.Session.History
import AccessControl.Proofs.World.Fills

/-! # Sessions keep to the order

The services of sessions cache a stamp when they have just found it in the store, and a key as live
when they have just found its record or stored it.  All their other requests are quiet: of what is
cached about roles and users they make nothing wrong.
-/
namespace AccessControl.Session
open World Outside Program
variable {catalog : Catalog} {d : Deployment}

theorem allowsPlain_quiet : AllowsPlain Quiet where
  get _ := quiet_get
  delete _ := quiet_delete
  fresh := quiet_of_not_writes rfl nofun
  now := quiet_of_not_writes rfl nofun
  verify _ := quiet_of_not_writes rfl nofun
  isTokenLive _ _ _ := quiet_of_not_writes rfl nofun
  deleteToken _ _ := ⟨nofun, fun _ _ => id⟩
  deleteTokens _ := ⟨nofun, fun _ _ => id⟩
  findStamp _ := quiet_of_not_writes rfl nofun

/-- **A stamp is cached as it was found.** -/
theorem keepsOrder_checkStamp (user : UserId) (claims : Token.Claims) :
    KeepsOrder catalog (checkStamp d user claims) := by
  rw [checkStamp]
  apply Preserves.bind (keepsOrder_of_asks (asks_refusing _))
  intro claimed
  apply Preserves.bind (keepsOrder_of_asks (asks_read_quiet (.securityStamp user)).run_lift)
  intro cached?
  split
  · exact preserves_pure ()
  · intro log hlog
    rw [ensures_run_bind]
    refine ensures_recording (I := Backend) (r := .findStamp user) fun found => ?_
    have hfound := hlog.quiet (r := .findStamp user) (allowsPlain_quiet.findStamp user) found
    cases found with
    | error failure => exact hfound
    | ok current? =>
      dsimp only
      split
      · rename_i hcurrent
        subst hcurrent
        refine ensures_recording_store fun cached => ?_
        exact hfound.fill (.securityStamp user claimed) d.cacheSeconds cached
      · exact ensures_run_throw.mpr hfound

/-- **A key is cached as live after its record was found to be so.** -/
theorem keepsOrder_checkKey (user : UserId) (claims : Token.Claims) :
    KeepsOrder catalog (checkKey d user claims) := by
  rw [checkKey]
  apply Preserves.bind (keepsOrder_of_asks (asks_refusing _))
  intro key
  have hread : (Cached.isLive user key).Asks Quiet :=
    (asks_read_quiet (.tokenValidity user key)).bind fun _ => asks_done _
  apply Preserves.bind (keepsOrder_of_asks hread.run_lift)
  intro cached
  split
  · exact preserves_pure ()
  · apply Preserves.bind (keepsOrder_of_asks (asks_backend .now allowsPlain_quiet.now).run_lift)
    intro now log hlog
    rw [ensures_run_bind]
    refine ensures_recording (I := Backend) (r := .isTokenLive user key now) fun found => ?_
    have hfound := hlog.quiet (r := .isTokenLive user key now)
      (allowsPlain_quiet.isTokenLive user key now) found
    rcases found with failure | (_ | _)
    · exact hfound
    · exact ensures_run_throw.mpr hfound
    · refine ensures_recording_store fun cached => ?_
      exact hfound.fill (.liveToken user key now) d.cacheSeconds cached

theorem keepsOrder_validate (token : String) (kind : Token.Kind) :
    KeepsOrder catalog (validate d token kind) := by
  rw [validate]
  apply Preserves.bind (keepsOrder_of_asks (asks_verify (allowsPlain_quiet.verify token)))
  intro claims
  apply Preserves.bind (keepsOrder_of_asks (asks_refusing _))
  intro _
  apply Preserves.bind (keepsOrder_of_asks (asks_refusing _))
  intro user
  apply Preserves.bind (keepsOrder_checkStamp user claims)
  intro _
  apply Preserves.bind (keepsOrder_checkKey user claims)
  exact fun _ => preserves_pure _

/-- **A key is cached as live after its record was stored.** -/
theorem keepsOrder_issue (subject : Token.Subject) (kind : Token.Kind)
    (refreshKey : Option TokenKey) : KeepsOrder catalog (issue d subject kind refreshKey) := by
  rw [issue]
  apply Preserves.bind (keepsOrder_of_asks (asks_backend .fresh allowsPlain_quiet.fresh).run_lift)
  intro uuid
  apply Preserves.bind (keepsOrder_of_asks (asks_backend .now allowsPlain_quiet.now).run_lift)
  intro issuedAt
  split
  · exact preserves_throw _
  · rename_i expiresAt _
    apply Preserves.bind (keepsOrder_of_asks (asks_backend .fresh allowsPlain_quiet.fresh).run_lift)
    intro tokenId
    apply Preserves.bind
      (keepsOrder_of_asks (asks_backend (.sign _) (quiet_of_not_writes rfl nofun)))
    intro text log hlog
    rw [ensures_run_bind]
    refine ensures_recording (I := Backend)
      (r := .createToken ⟨subject.userId, ⟨uuid⟩, expiresAt⟩) fun created => ?_
    have hcreated := hlog.quiet (r := .createToken ⟨subject.userId, ⟨uuid⟩, expiresAt⟩)
      ⟨nofun, fun _ _ => id⟩ created
    cases created with
    | error failure => exact hcreated
    | ok _ =>
      dsimp only
      rw [ensures_run_bind]
      refine ensures_recording_store fun cached => ensures_run_pure.mpr ?_
      exact hcreated.fill (.newToken subject.userId ⟨uuid⟩ expiresAt) d.cacheSeconds cached

theorem keepsOrder_refreshAccess (token : String) :
    KeepsOrder catalog (refreshAccess d token) := by
  rw [refreshAccess]
  apply Preserves.bind (keepsOrder_validate token .refresh)
  intro validated
  apply Preserves.bind (keepsOrder_of_asks (asks_refusing _))
  intro refreshKey
  apply Preserves.bind (keepsOrder_of_asks
    (asks_backend (.findStamp validated.userId) (allowsPlain_quiet.findStamp _)))
  intro stamp?
  split
  · exact preserves_throw _
  · exact keepsOrder_issue _ .access _

/-- **Every call keeps to the order.** -/
theorem Call.keepsOrder (d : Deployment) (c : Call) : KeepsOrder catalog (c.service d) := by
  cases c with
  | issue subject kind refreshKey => exact keepsOrder_issue subject kind refreshKey
  | issuePair subject =>
    apply Preserves.bind (keepsOrder_issue subject .refresh none)
    intro refresh
    apply Preserves.bind (keepsOrder_issue subject .access (some refresh.key))
    exact fun access => preserves_pure _
  | validate token kind => exact keepsOrder_validate token kind
  | refreshAccess token => exact keepsOrder_refreshAccess token
  | revoke user claims => exact keepsOrder_of_asks (asks_revoke allowsPlain_quiet user claims)
  | rotateStamp user =>
    exact keepsOrder_of_asks (asks_rotateStamp allowsPlain_quiet user fun _ =>
      ⟨nofun, fun _ _ => id⟩)

end AccessControl.Session
