import AccessControl.Proofs.Http.ToldAlike
import AccessControl.Proofs.Services.Reached

/-! # Services keep the wording of failures to themselves

A store fails in two runs with failures that are told alike.  No service looks into the wording of
such a failure: it hands the failure on as it is, or keeps it until another step has ended
(`Backend.outcome`, `Backend.conclude`), and whatever else it does is the same in both runs.  There
is one lemma for each service, along its text, and so every call is discreet
(`Services.Call.discreet`).
-/
namespace AccessControl.Services
open Program Backend
open Http hiding Request Discreet
variable {α β : Type}

/-- What a service does and what a client is told of it does not depend on the wording of what
stores fail with. -/
abbrev Discreet (x : Service α) : Prop := Http.Discreet (I := Backend) Answer.Alike x

/-- A program does the same and has the same result in both runs. -/
abbrev Steady (p : Program Backend α) : Prop := InStep (I := Backend) Answer.Alike Eq p p

theorem inStep_request (r : Request) :
    InStep (I := Backend) Answer.Alike (Answer.Alike r) (request r) (request r) :=
  Program.inStep_request fun _ _ h => h

theorem steady_done (a : α) : Steady (.done a) := .done rfl

theorem steady_bind {p : Program Backend α} {f : α → Program Backend β} (hp : Steady p)
    (hf : ∀ a, Steady (f a)) : Steady (p >>= f) := by
  refine hp.bind fun a b hab => ?_
  rw [← hab]
  exact hf a

theorem discreet_lift {p : Program Backend α} (hp : Steady p) : Discreet (liftM p : Service α) :=
  Indistinct.lift hp

/-- A step whose end is kept is followed alike if what follows cannot tell such ends apart. -/
theorem discreet_outcome_bind {x : Service α} {f : Except Failure α → Service β} (hx : Discreet x)
    (hf : ∀ a b, EndAlike Eq a b → Indistinct (I := Backend) Answer.Alike Eq (f a) (f b)) :
    Discreet (outcome x >>= f) := (Indistinct.outcome hx).bind hf

/-! ## Requests -/

theorem discreet_findRole (role : RoleId) : Discreet (Backend.findRole role) :=
  inStep_request (.findRole role)

theorem discreet_verify (token : String) : Discreet (Backend.verify token) := by
  refine (inStep_request (.verify token)).bind fun a b hab => ?_
  obtain rfl : a = b := hab
  cases a with
  | ok claims => exact .done (.ok rfl)
  | error rejection => exact .done (.error rfl)

theorem discreet_sign (claims : Token.Claims) : Discreet (Backend.sign claims) := by
  refine (inStep_request (.sign claims)).mono fun a b hab => ?_
  obtain rfl : a = b := hab
  exact endAlike_refl a

/-! ## The cache -/

theorem steady_remove (key : CacheKey) : Steady (Cached.remove key) :=
  steady_bind (inStep_request (.cacheDelete key.text)) fun _ => steady_done ()

theorem steady_read [Json.Form α] (key : CacheKey) : Steady (Cached.read α key) := by
  refine steady_bind (inStep_request (.cacheGet key.text)) fun found => ?_
  split
  · split
    · exact steady_done _
    · exact steady_bind (steady_remove key) fun _ => steady_done none
  · exact steady_done none

theorem steady_store [Cached.Item α] (seconds : UInt32) (item : α) :
    Steady (Cached.store seconds item) :=
  steady_bind (inStep_request (.cacheSet _ _ _)) fun _ => steady_done ()

/-! ## Authorization -/

section Authorization
open Authorization
variable (d : Deployment)

theorem discreet_loadRole (role : RoleId) : Discreet (loadRole d role) := by
  refine (discreet_findRole role).bind fun record? => ?_
  cases record? with
  | none => exact (discreet_lift (steady_remove _)).bind fun _ => discreet_pure none
  | some record =>
    refine Http.Discreet.bind (inStep_request (.roleGrants role)) fun rows => ?_
    exact (discreet_lift (steady_store _ _)).bind fun _ => discreet_pure _

theorem discreet_loadRoles (roles : List RoleId) : Discreet (loadRoles d roles) := by
  induction roles with
  | nil => exact discreet_pure []
  | cons role roles ih =>
    exact (discreet_loadRole d role).bind fun _ => ih.bind fun _ => discreet_pure _

theorem discreet_resolveRole (role : RoleId) : Discreet (resolveRole d role) := by
  refine (discreet_loadRole d role).bind fun held? => ?_
  cases held? with
  | none => exact discreet_throw _
  | some held => exact discreet_pure held

theorem discreet_resolveUser (user : UserId) : Discreet (resolveUser d user) := by
  refine Http.Discreet.bind (inStep_request (.userRoles user)) fun roles => ?_
  refine (discreet_lift (steady_store _ _)).bind fun _ => ?_
  refine Http.Discreet.bind (inStep_request (.userGrants user)) fun rows => ?_
  refine (discreet_lift (steady_store _ _)).bind fun _ => ?_
  exact (discreet_loadRoles d roles).bind fun _ => discreet_pure _

theorem steady_cachedRoles (roles : List RoleId) : Steady (cachedRoles roles) := by
  induction roles with
  | nil => exact steady_done _
  | cons role roles ih =>
    refine steady_bind (steady_read _) fun item? => ?_
    cases item? with
    | none => exact steady_done none
    | some item =>
      refine steady_bind ih fun rest? => ?_
      cases rest? with
      | none => exact steady_done none
      | some rest => exact steady_done _

theorem steady_cachedDecision (user : UserId) (name : String) :
    Steady (cachedDecision user name) := by
  refine steady_bind (steady_read _) fun roles? => ?_
  cases roles? with
  | none => exact steady_done none
  | some roles =>
    refine steady_bind (steady_read _) fun item? => ?_
    cases item? with
    | none => exact steady_done none
    | some item =>
      refine steady_bind (steady_cachedRoles roles.roleIds) fun held? => ?_
      cases held? with
      | none => exact steady_done none
      | some held => exact steady_done _

theorem discreet_isGranted (user : UserId) (name : String) : Discreet (isGranted d user name) := by
  rw [isGranted]
  split
  · refine (discreet_lift (steady_cachedDecision user name)).bind fun decision? => ?_
    cases decision? with
    | none => exact (discreet_resolveUser d user).bind fun _ => discreet_pure _
    | some decision => exact discreet_pure decision
  · exact discreet_pure false

theorem discreet_hasPermission (user : UserId) (name : String) :
    Discreet (hasPermission d user name) :=
  (discreet_check _).bind fun _ => discreet_isGranted d user name

theorem discreet_requirePermission (user : UserId) (name : String) :
    Discreet (requirePermission d user name) :=
  (discreet_hasPermission d user name).bind fun _ => discreet_check _

theorem discreet_listGranted (user : UserId) : Discreet (listGranted d user) :=
  (discreet_resolveUser d user).bind fun _ => discreet_pure _

end Authorization

/-! ## Administration -/

section Administration
open Administration
variable (d : Deployment) (actor : UserId)

theorem discreet_existingRole (role : RoleId) : Discreet (existingRole role) := by
  refine (discreet_findRole role).bind fun record? => ?_
  cases record? with
  | none => exact discreet_throw _
  | some record => exact discreet_pure record

theorem discreet_createRole (name displayName : String) (granted : List String) :
    Discreet (Administration.createRole d actor name displayName granted) := by
  refine (discreet_requirePermission d actor _).bind fun _ => ?_
  refine (discreet_check _).bind fun _ => (discreet_check _).bind fun _ => ?_
  refine Http.Discreet.bind (inStep_request (.createRole _)) fun role => ?_
  exact (discreet_lift (steady_remove _)).bind fun _ => discreet_pure role

/-- The write of a renamed role may have failed when what is cached of the role is removed, and only
then the failure is told. -/
theorem discreet_renameRole (role : RoleId) (name displayName : String) :
    Discreet (renameRole d actor role name displayName) := by
  refine (discreet_requirePermission d actor _).bind fun _ => ?_
  refine (discreet_existingRole role).bind fun current => ?_
  refine (discreet_check _).bind fun renamed => ?_
  have hwrite : ∀ grants? : Option (List Grant), Discreet (do
      let written ← outcome (Backend.updateRole role {
        name := renamed.name
        displayName := renamed.displayName
        isPrivileged := renamed.isPrivileged
        grants? })
      Cached.remove (.rolePermissions role)
      conclude written
      return renamed) := by
    intro grants?
    refine discreet_outcome_bind (inStep_request (.updateRole role _)) fun a b hab => ?_
    refine Indistinct.bind (discreet_lift (steady_remove _)) fun _ _ _ => ?_
    exact (indistinct_conclude hab).bind fun _ _ _ => discreet_pure renamed
  split
  · refine (discreet_resolveRole d role).bind fun held => ?_
    exact (discreet_pure _).bind hwrite
  · exact (discreet_pure none).bind hwrite

theorem discreet_setRolePermissions (role : RoleId) (granted : List String) :
    Discreet (setRolePermissions d actor role granted) := by
  refine (discreet_requirePermission d actor _).bind fun _ => ?_
  refine (discreet_check _).bind fun _ => (discreet_existingRole role).bind fun record => ?_
  refine Http.Discreet.bind (inStep_request (.replaceRoleGrants role _)) fun _ => ?_
  exact discreet_lift (steady_remove _)

theorem steady_forgetRolesOf (users : List UserId) : Steady (forgetRolesOf users) := by
  induction users with
  | nil => exact steady_done ()
  | cons user users ih => exact steady_bind (steady_remove _) fun _ => ih

theorem discreet_deleteRole (role : RoleId) :
    Discreet (Administration.deleteRole d actor role) := by
  refine (discreet_requirePermission d actor _).bind fun _ => ?_
  refine Http.Discreet.bind (inStep_request (.deleteRole role)) fun users => ?_
  refine (discreet_lift (steady_remove _)).bind fun _ => ?_
  exact discreet_lift (steady_forgetRolesOf users)

theorem discreet_listRoleGrants (role : RoleId) : Discreet (listRoleGrants d actor role) := by
  refine (discreet_requirePermission d actor _).bind fun _ => ?_
  exact (discreet_existingRole role).bind fun _ => inStep_request (.roleGrants role)

theorem discreet_replaceOverrides (user : UserId) (rows : List Grant) :
    Discreet (replaceOverrides user rows) :=
  Http.Discreet.bind (inStep_request (.replaceUserGrants user rows)) fun _ =>
    discreet_lift (steady_remove _)

theorem discreet_setUserPermissions (user : UserId) (changes : List Grant) :
    Discreet (setUserPermissions d actor user changes) := by
  refine (discreet_requirePermission d actor _).bind fun _ => ?_
  exact (discreet_check _).bind fun _ => discreet_replaceOverrides user _

theorem discreet_roleDerived (user : UserId) : Discreet (roleDerived d user) := by
  refine Http.Discreet.bind (inStep_request (.userRoles user)) fun roles => ?_
  exact (discreet_loadRoles d roles).bind fun _ => discreet_pure _

theorem discreet_setUserGrantedPermissions (user : UserId) (granted : List String) :
    Discreet (setUserGrantedPermissions d actor user granted) := by
  refine (discreet_requirePermission d actor _).bind fun _ => (discreet_check _).bind fun _ => ?_
  exact (discreet_roleDerived d user).bind fun _ => discreet_replaceOverrides user _

theorem discreet_resetUserPermissions (user : UserId) :
    Discreet (resetUserPermissions d actor user) :=
  (discreet_requirePermission d actor _).bind fun _ => discreet_replaceOverrides user []

theorem discreet_setUserRoles (user : UserId) (roles : List RoleId) :
    Discreet (setUserRoles d actor user roles) := by
  refine (discreet_requirePermission d actor _).bind fun _ => ?_
  refine Http.Discreet.bind (inStep_request (.replaceUserRoles user _)) fun _ => ?_
  exact discreet_lift (steady_remove _)

end Administration

/-! ## Sessions -/

section Session
open Session
variable (d : Deployment)

theorem discreet_fresh : Discreet (liftM Backend.fresh : Service Uuid) :=
  discreet_lift (inStep_request .fresh)

theorem discreet_issue (subject : Token.Subject) (kind : Token.Kind)
    (refreshKey : Option TokenKey) : Discreet (issue d subject kind refreshKey) := by
  refine discreet_fresh.bind fun key => ?_
  refine Http.Discreet.bind (discreet_lift (inStep_request .now)) fun issuedAt => ?_
  cases issuedAt.add? (d.tokens.lifetime kind) with
  | none => exact discreet_throw _
  | some expiresAt =>
    refine discreet_fresh.bind fun tokenId => (discreet_sign _).bind fun text => ?_
    refine Http.Discreet.bind (inStep_request (.createToken _)) fun _ => ?_
    exact (discreet_lift (steady_store _ _)).bind fun _ => discreet_pure _

theorem discreet_issuePair (subject : Token.Subject) : Discreet (issuePair d subject) := by
  refine (discreet_issue d subject .refresh none).bind fun refresh => ?_
  exact (discreet_issue d subject .access _).bind fun _ => discreet_pure _

theorem discreet_refusing (check : Except Rejection α) : Discreet (refusing check) := by
  cases check with
  | ok a => exact discreet_pure a
  | error rejection => exact discreet_throw _

theorem discreet_checkStamp (user : UserId) (claims : Token.Claims) :
    Discreet (checkStamp d user claims) := by
  refine (discreet_refusing _).bind fun claimed => ?_
  refine (discreet_lift (steady_read _)).bind fun cached? => ?_
  split
  · exact discreet_pure ()
  · refine Http.Discreet.bind (inStep_request (.findStamp user)) fun current? => ?_
    split
    · exact discreet_lift (steady_store _ _)
    · exact discreet_throw _

theorem discreet_checkKey (user : UserId) (claims : Token.Claims) :
    Discreet (checkKey d user claims) := by
  refine (discreet_refusing _).bind fun key => ?_
  have hlive : Steady (Cached.isLive user key) :=
    steady_bind (steady_read _) fun _ => steady_done _
  refine (discreet_lift hlive).bind fun cached => ?_
  split
  · exact discreet_pure ()
  · refine Http.Discreet.bind (discreet_lift (inStep_request .now)) fun now => ?_
    refine Http.Discreet.bind (inStep_request (.isTokenLive user key now)) fun live => ?_
    split
    · exact discreet_lift (steady_store _ _)
    · exact discreet_throw _

theorem discreet_validate (token : String) (kind : Token.Kind) :
    Discreet (validate d token kind) := by
  refine (discreet_verify token).bind fun claims => (discreet_refusing _).bind fun _ => ?_
  refine (discreet_refusing _).bind fun user => ?_
  refine (discreet_checkStamp d user claims).bind fun _ => ?_
  exact (discreet_checkKey d user claims).bind fun _ => discreet_pure _

theorem discreet_refreshAccess (token : String) : Discreet (refreshAccess d token) := by
  refine (discreet_validate d token .refresh).bind fun validated => ?_
  refine (discreet_refusing _).bind fun refreshKey => ?_
  refine Http.Discreet.bind (inStep_request (.findStamp validated.userId)) fun stamp? => ?_
  cases stamp? with
  | none => exact discreet_throw _
  | some stamp => exact discreet_issue d _ .access _

theorem discreet_revokeKey (user : UserId) (key : TokenKey) : Discreet (revokeKey user key) := by
  refine discreet_outcome_bind (inStep_request (.deleteToken user key)) fun a b hab => ?_
  refine Indistinct.bind (discreet_lift (steady_remove _)) fun _ _ _ => ?_
  exact (indistinct_conclude hab).bind fun _ _ _ => discreet_pure ()

/-- Of two failures the first is told, in both runs. -/
theorem discreet_revokeKeys (user : UserId) (keys : List TokenKey) :
    Discreet (revokeKeys user keys) := by
  induction keys with
  | nil => exact discreet_pure ()
  | cons key keys ih =>
    refine discreet_outcome_bind (discreet_revokeKey user key) fun first first' hfirst => ?_
    refine (Indistinct.outcome ih).bind fun others others' hothers => ?_
    exact (indistinct_conclude hfirst).bind fun _ _ _ => indistinct_conclude hothers

theorem discreet_revoke (user : UserId) (claims : Token.Claims) :
    Discreet (revoke user claims) := by
  rw [revoke]
  split
  · exact discreet_throw _
  · exact discreet_revokeKeys user _

theorem discreet_rotateStamp (user : UserId) : Discreet (rotateStamp user) := by
  have hremove := discreet_lift (steady_remove (.securityStamp user))
  refine discreet_fresh.bind fun stamp => hremove.bind fun _ => ?_
  refine discreet_outcome_bind (inStep_request (.updateStamp user _)) fun a b hab => ?_
  refine Indistinct.bind hremove fun _ _ _ => (indistinct_conclude hab).bind fun _ _ _ => ?_
  refine discreet_outcome_bind (inStep_request (.deleteTokens user)) fun a b hab => ?_
  refine Indistinct.bind hremove fun _ _ _ => (indistinct_conclude hab).bind fun _ _ _ => ?_
  exact discreet_pure _

end Session

/-- **Every call is discreet.** -/
theorem Call.discreet (d : Deployment) (c : Call) : Discreet (c.service d) := by
  cases c with
  | administration c =>
    cases c with
    | resolveRole role => exact discreet_resolveRole d role
    | resolveUser user => exact discreet_resolveUser d user
    | isGranted user name => exact discreet_isGranted d user name
    | hasPermission user name => exact discreet_hasPermission d user name
    | requirePermission user name => exact discreet_requirePermission d user name
    | listGranted user => exact discreet_listGranted d user
    | createRole actor name displayName granted =>
      exact discreet_createRole d actor name displayName granted
    | renameRole actor role name displayName =>
      exact discreet_renameRole d actor role name displayName
    | setRolePermissions actor role granted =>
      exact discreet_setRolePermissions d actor role granted
    | deleteRole actor role => exact discreet_deleteRole d actor role
    | setUserPermissions actor user changes =>
      exact discreet_setUserPermissions d actor user changes
    | setUserGrantedPermissions actor user granted =>
      exact discreet_setUserGrantedPermissions d actor user granted
    | resetUserPermissions actor user => exact discreet_resetUserPermissions d actor user
    | setUserRoles actor user roles => exact discreet_setUserRoles d actor user roles
  | listRoleGrants actor role => exact discreet_listRoleGrants d actor role
  | session c =>
    cases c with
    | issue subject kind refreshKey => exact discreet_issue d subject kind refreshKey
    | issuePair subject => exact discreet_issuePair d subject
    | validate token kind => exact discreet_validate d token kind
    | refreshAccess token => exact discreet_refreshAccess d token
    | revoke user claims => exact discreet_revoke user claims
    | rotateStamp user => exact discreet_rotateStamp user

end AccessControl.Services
