import AccessControl.Http.Server
import AccessControl.Proofs.Administration.History
import AccessControl.Proofs.Administration.Renaming
import AccessControl.Proofs.Session.Coherence

/-! # What a user may change by requests

The aspects of a store are open to users in different ways (`Aspect.OpenTo`): nobody changes roles,
everybody may have the own stamp changed, and each of the others takes one permission.

An endpoint serves a request for a user.  It is confined to what is open to the user
(`Confined`): by the time that it is given up or ends, it has asked for no other change.  Either it
asks for nothing else at all, or it first requires the permission that its changes take, and in a
coherent world only a user who has it passes.
-/
namespace AccessControl

/-- **What a user who holds some permissions may have changed.** -/
def Aspect.OpenTo (user : UserId) (held : NameSet) : Aspect → Prop
  | .role _ => False
  | .roleGrants _ => Permission.editRoles ∈ held
  | .overrides _ => Permission.changeUserPermissions ∈ held
  | .assignments _ => Permission.editUsers ∈ held
  | .stamp owner => owner = user ∨ Permission.unlockUsers ∈ held

namespace Http
open World Outside Program Authorization
variable {α β : Type} {d : Deployment} {user : UserId} {held : NameSet} {r : Backend.Request}
  {t : List (Exchange Backend)} {w w' : World}

/-- A request touches only what is open to a user. -/
def KeepsTo (user : UserId) (held : NameSet) (r : Backend.Request) : Prop :=
  ∀ aspect, r.Touches aspect → aspect.OpenTo user held

theorem keepsTo_of_not_writes (h : r.writes = false) : KeepsTo user held r :=
  fun aspect htouches => absurd htouches (not_touches_of_not_writes h aspect)

/-- **A program is confined to what is open to a user** in the world that it begins in. -/
def Confined (d : Deployment) (user : UserId) (p : Program Backend α) : Prop :=
  ∀ w t w', w.Coherent d.catalog → p.Begins t → Session.outside.Follows w t w' →
    ∀ e ∈ t, KeepsTo user (w.store.permissions d.catalog user) e.request

/-- What is not open to a user, a confined program leaves as it is. -/
theorem Confined.sameIn_or_openTo {p : Program Backend α} (h : Confined d user p)
    (hw : w.Coherent d.catalog) (ht : p.Begins t) (hf : Session.outside.Follows w t w')
    (aspect : Aspect) :
    w.store.SameIn w'.store aspect ∨
      aspect.OpenTo user (w.store.permissions d.catalog user) := by
  by_cases hopen : aspect.OpenTo user (w.store.permissions d.catalog user)
  · exact .inr hopen
  · exact .inl (sameIn_of_follows hf fun e he htouches => hopen (h w t w' hw ht hf e he _ htouches))

theorem confined_of_asks {p : Program Backend α} (h : ∀ held, p.Asks (KeepsTo user held)) :
    Confined d user p := fun _ _ _ _ ht _ => (h _).begins ht

theorem confined_done (a : α) : Confined d user (.done a : Program Backend α) :=
  confined_of_asks fun _ => asks_done a

theorem confined_of_reading {p : Program Backend α}
    (h : p.Asks fun r : Backend.Request => r.writes = false) : Confined d user p :=
  confined_of_asks fun _ => h.mono fun _ => keepsTo_of_not_writes

/-- **What takes a permission may follow when it was required.** -/
theorem confined_requirePermission_bind {name : String} {f : Unit → Service α}
    (h : ∀ held : NameSet, name ∈ held → (f ()).run.Asks (KeepsTo user held)) :
    Confined d user (requirePermission d user name >>= f).run := by
  intro w t w' hw ht hf
  have hresolves : Resolves d ⟨0⟩ (requirePermission d user name).run :=
    resolves_requirePermission user name
  rcases ht.run_bind_cases with hgate | ⟨t₁, _, t₂, rfl, hgate, hrest⟩
  · exact fun e he => keepsTo_of_not_writes (hresolves.asks.begins hgate e he)
  · obtain ⟨m, hm, -⟩ := follows_append_iff.mp hf
    obtain ⟨hpassed, -⟩ := ensures_requirePermission hw name _ _ _ hgate hm
    intro e he
    rcases List.mem_append.mp he with hbefore | hafter
    · exact keepsTo_of_not_writes (hresolves.asks _ _ hgate e hbefore)
    · exact (h _ (hpassed rfl)).begins hrest e hafter

/-! ## Services -/

/-- Signs a user out for another. -/
def forceSignOut (d : Deployment) (user owner : UserId) : Service SecurityStamp := do
  requirePermission d user Permission.unlockUsers
  Session.rotateStamp owner

section Services
variable (user)

theorem allowsPlain_keepsTo : Session.AllowsPlain (KeepsTo user held) where
  get _ := keepsTo_of_not_writes rfl
  delete _ := keepsTo_of_not_writes rfl
  fresh := keepsTo_of_not_writes rfl
  now := keepsTo_of_not_writes rfl
  verify _ := keepsTo_of_not_writes rfl
  isTokenLive _ _ _ := keepsTo_of_not_writes rfl
  deleteToken _ _ _ h := h.elim
  deleteTokens _ _ h := h.elim
  findStamp _ := keepsTo_of_not_writes rfl

theorem keepsTo_remove (key : CacheKey) : (Cached.remove key).Asks (KeepsTo user held) :=
  asks_remove (keepsTo_of_not_writes rfl)

/-- A session that is ended takes its token records with it. -/
theorem confined_revoke (claims : Token.Claims) :
    Confined d user (Session.revoke user claims).run :=
  confined_of_asks fun _ => Session.asks_revoke (allowsPlain_keepsTo user) user claims

/-- The own stamp is open to everybody. -/
theorem confined_rotateStamp : Confined d user (Session.rotateStamp user).run :=
  confined_of_asks fun _ => Session.asks_rotateStamp (allowsPlain_keepsTo user) user
    fun _ _ htouches => htouches ▸ .inl rfl

theorem confined_listGranted : Confined d user (listGranted d user).run := by
  have hresolves : Resolves d ⟨0⟩ (listGranted d user).run := resolves_listGranted user
  exact confined_of_reading hresolves.asks

theorem confined_hasPermission (name : String) :
    Confined d user (hasPermission d user name).run := by
  have hresolves : Resolves d ⟨0⟩ (hasPermission d user name).run :=
    resolves_hasPermission user name
  exact confined_of_reading hresolves.asks

theorem confined_setRolePermissions (role : RoleId) (granted : List String) :
    Confined d user (Administration.setRolePermissions d user role granted).run := by
  refine confined_requirePermission_bind fun held hheld => ?_
  refine Asks.run_bind (asks_run_check _) fun _ => ?_
  refine Asks.run_bind (Administration.asks_existingRole.mono fun _ => keepsTo_of_not_writes)
    fun record => ?_
  refine Asks.run_bind (asks_backend (.replaceRoleGrants role _) ?_) fun _ => ?_
  · rintro _ rfl
    exact hheld
  · exact (keepsTo_remove user _).run_lift

theorem confined_setUserPermissions (owner : UserId) (changes : List Grant) :
    Confined d user (Administration.setUserPermissions d user owner changes).run := by
  refine confined_requirePermission_bind fun held hheld => ?_
  refine Asks.run_bind (asks_run_check _) fun _ => ?_
  refine Asks.run_bind (asks_backend (.replaceUserGrants owner _) ?_) fun _ => ?_
  · rintro _ rfl
    exact hheld
  · exact (keepsTo_remove user _).run_lift

theorem confined_setUserRoles (owner : UserId) (roles : List RoleId) :
    Confined d user (Administration.setUserRoles d user owner roles).run := by
  refine confined_requirePermission_bind fun held hheld => ?_
  refine Asks.run_bind (asks_backend (.replaceUserRoles owner _) ?_) fun _ => ?_
  · rintro _ rfl
    exact hheld
  · exact (keepsTo_remove user _).run_lift

/-- The stamps of others take a permission. -/
theorem confined_forceSignOut (owner : UserId) :
    Confined d user (forceSignOut d user owner).run := by
  refine confined_requirePermission_bind fun held hheld => ?_
  refine Session.asks_rotateStamp (allowsPlain_keepsTo user) owner fun _ => ?_
  rintro _ rfl
  exact .inr hheld

end Services

/-! ## Endpoints -/

/-- What a service asks for is all that is asked for when a request is served by it. -/
theorem begins_answering {present : α → Response} {service : Service α}
    (h : (answering present service).Begins t) : service.run.Begins t := by
  rcases h.bind_cases with h | ⟨t₁, ended, t₂, rfl, h₁, h₂⟩
  · exact h
  · have hend : t₂ = [] := by
      cases ended with
      | ok a => exact begins_done h₂
      | error failure => exact begins_done h₂
    rw [hend, List.append_nil]
    exact h₁.begins

theorem Confined.answering {present : α → Response} {service : Service α}
    (h : Confined d user service.run) : Confined d user (answering present service) :=
  fun w t w' hw ht => h w t w' hw (begins_answering ht)

/-- **What protected endpoints run for the user of a token**: one service, or none. -/
inductive Runs (d : Deployment) (token : Token.Validated) : Endpoint → Prop where
  /-- The response is known. -/
  | nothing (response : Response) : Runs d token (.done response)
  | revoke : Runs d token (doing (Session.revoke token.userId token.claims))
  | rotateStamp : Runs d token (doing (Session.rotateStamp token.userId))
  | listGranted (present : List PermissionDefinition → Response) :
    Runs d token (answering present (listGranted d token.userId))
  | hasPermission (name : String) (present : Bool → Response) :
    Runs d token (answering present (hasPermission d token.userId name))
  | setRolePermissions (role : RoleId) (granted : List String) :
    Runs d token (doing (Administration.setRolePermissions d token.userId role granted))
  | setUserPermissions (owner : UserId) (changes : List Grant) :
    Runs d token (doing (Administration.setUserPermissions d token.userId owner changes))
  | setUserRoles (owner : UserId) (roles : List RoleId) :
    Runs d token (doing (Administration.setUserRoles d token.userId owner roles))
  | forceSignOut (owner : UserId) : Runs d token (doing (forceSignOut d token.userId owner))

variable {token : Token.Validated} {endpoint : Endpoint}

/-- Where the path or the body cannot be read, nothing is run. -/
theorem runs_settle {x : Except Response Endpoint}
    (h : ∀ endpoint, x = .ok endpoint → Runs d token endpoint) :
    Runs d token (settle x) := by
  cases x with
  | ok endpoint => exact h endpoint rfl
  | error response => exact .nothing response

theorem runs_protectedEndpoint (request : Request) (token : Token.Validated) (route : Route) :
    Runs d token (protectedEndpoint d request token route) := by
  cases route with
  | signOut => exact .revoke
  | signOutEverywhere => exact .rotateStamp
  | catalog => exact .nothing _
  | myPermissions => exact .listGranted _
  | myPermission part =>
    refine runs_settle fun endpoint hendpoint => ?_
    obtain ⟨name, -, hendpoint⟩ := Except.bind_eq_ok_iff.mp hendpoint
    obtain rfl := Except.ok.inj hendpoint
    exact .hasPermission name _
  | rolePermissions part =>
    refine runs_settle fun endpoint hendpoint => ?_
    obtain ⟨role, -, hendpoint⟩ := Except.bind_eq_ok_iff.mp hendpoint
    obtain ⟨granted, -, hendpoint⟩ := Except.bind_eq_ok_iff.mp hendpoint
    obtain rfl := Except.ok.inj hendpoint
    exact .setRolePermissions ⟨role⟩ granted
  | userPermissions part =>
    refine runs_settle fun endpoint hendpoint => ?_
    obtain ⟨owner, -, hendpoint⟩ := Except.bind_eq_ok_iff.mp hendpoint
    obtain ⟨changes, -, hendpoint⟩ := Except.bind_eq_ok_iff.mp hendpoint
    obtain rfl := Except.ok.inj hendpoint
    exact .setUserPermissions ⟨owner⟩ changes
  | userRoles part =>
    refine runs_settle fun endpoint hendpoint => ?_
    obtain ⟨owner, -, hendpoint⟩ := Except.bind_eq_ok_iff.mp hendpoint
    obtain ⟨roles, -, hendpoint⟩ := Except.bind_eq_ok_iff.mp hendpoint
    obtain rfl := Except.ok.inj hendpoint
    exact .setUserRoles ⟨owner⟩ roles
  | forceSignOut part =>
    refine runs_settle fun endpoint hendpoint => ?_
    obtain ⟨owner, -, hendpoint⟩ := Except.bind_eq_ok_iff.mp hendpoint
    obtain rfl := Except.ok.inj hendpoint
    exact .forceSignOut ⟨owner⟩
  | health => exact .nothing _
  | refresh => exact .nothing _

/-- **What is run for a user is confined to what is open to the user.** -/
theorem Runs.confined (h : Runs d token endpoint) : Confined d token.userId endpoint := by
  cases h with
  | nothing response => exact confined_done response
  | revoke => exact (confined_revoke _ token.claims).answering
  | rotateStamp => exact (confined_rotateStamp _).answering
  | listGranted present => exact (confined_listGranted _).answering
  | hasPermission name present => exact (confined_hasPermission _ name).answering
  | setRolePermissions role granted =>
    exact (confined_setRolePermissions _ role granted).answering
  | setUserPermissions owner changes =>
    exact (confined_setUserPermissions _ owner changes).answering
  | setUserRoles owner roles => exact (confined_setUserRoles _ owner roles).answering
  | forceSignOut owner => exact (confined_forceSignOut _ owner).answering

/-! ## Coherence -/

theorem ensures_answering {present : α → Response} {service : Service α}
    (h : Keeps Session.mayFail d.catalog service) (hw : w.Coherent d.catalog) :
    Session.outside.Ensures (answering present service) w fun _ w' => w'.Coherent d.catalog := by
  rw [answering, ensures_bind]
  refine (h w hw).mono fun ended v hv => ?_
  cases ended with
  | ok a => exact ensures_pure.mpr hv
  | error failure => exact ensures_pure.mpr hv

theorem keeps_forceSignOut (user owner : UserId) :
    Keeps Session.mayFail d.catalog (forceSignOut d user owner) :=
  Preserves.bind ((Administration.Call.requirePermission user _).keeps (fun _ => rfl) d) fun _ =>
    (Session.Call.rotateStamp owner).keeps

/-- **What is run to its end leaves every coherent world coherent.** -/
theorem Runs.ensures_coherent (h : Runs d token endpoint) (hw : w.Coherent d.catalog) :
    Session.outside.Ensures endpoint w fun _ w' => w'.Coherent d.catalog := by
  have hremove : RemovalsHold Session.mayFail := fun _ => rfl
  cases h with
  | nothing response => exact ensures_done.mpr hw
  | revoke => exact ensures_answering (Session.Call.revoke token.userId token.claims).keeps hw
  | rotateStamp => exact ensures_answering (Session.Call.rotateStamp token.userId).keeps hw
  | listGranted present =>
    exact ensures_answering ((Administration.Call.listGranted token.userId).keeps hremove d) hw
  | hasPermission name present =>
    exact ensures_answering
      ((Administration.Call.hasPermission token.userId name).keeps hremove d) hw
  | setRolePermissions role granted =>
    exact ensures_answering
      ((Administration.Call.setRolePermissions token.userId role granted).keeps hremove d) hw
  | setUserPermissions owner changes =>
    exact ensures_answering
      ((Administration.Call.setUserPermissions token.userId owner changes).keeps hremove d) hw
  | setUserRoles owner roles =>
    exact ensures_answering
      ((Administration.Call.setUserRoles token.userId owner roles).keeps hremove d) hw
  | forceSignOut owner => exact ensures_answering (keeps_forceSignOut _ owner) hw

end Http
end AccessControl
