import AccessControl.Proofs.Database.Wording
import AccessControl.Proofs.Http.Surface
import AccessControl.Proofs.Services.Discreet

/-! # The wording of the database reaches no client

Services are run with their stores in a database (`Database.Script.backing`): what they ask of a
store is served by its program, and the database answers from a script.  The cache, the signer, the
clock and the source of identifiers are the surroundings; they are left open, and may never answer.
When two databases answer the same but for the wording of their reports, each request of a service
is answered alike and leaves the same state (`Database.Script.Reworded.backing`), so services, which
are discreet, do the same and end alike.

What serves a request over HTTP turns the end of a service into a response, and ends that are alike
have one response (`Http.steady_answering`); so the responses are the same.
-/
namespace AccessControl

/-! ## Services whose stores are in a database -/

namespace Database
open Program Http
variable {σ : Type}

/-- How everything is answered that is not asked of a store, possibly never. -/
abbrev Surroundings (σ : Type) : Type :=
  (r : Backend.Request) → OptionT (StateM σ) (Backend.Answer r)

/-- How each request of a service is answered: by the program that serves it, which is run against
a script, or by the surroundings if it has none. -/
def Script.backing (script : Script) (around : Surroundings σ) (r : Backend.Request) :
    OptionT (StateM (Sent × σ)) (Backend.Answer r) :=
  match serve? r with
  | some p => OptionT.lift fun (sent, s) =>
    let (a, sent) := p.interpret script.answer sent
    (a, (sent, s))
  | none => OptionT.mk fun (sent, s) =>
    let (a?, s) := (around r).run s
    (a?, (sent, s))

/-- Runs a program of a service; it has no result if something is never answered. -/
def Script.running (script : Script) (around : Surroundings σ) {α : Type} (p : Program Backend α) :
    StateM (Sent × σ) (Option α) := (p.interpret (script.backing around)).run

variable {script script' : Script}

/-- **Each request of a service is answered alike**, after the same has been sent. -/
theorem Script.Reworded.backing (h : script.Reworded script') (around : Surroundings σ)
    (r : Backend.Request) :
    (Comparison.stalling (Sent × σ)).Holds (Backend.Answer.Alike r) (script.backing around r)
      (script'.backing around r) := by
  rintro ⟨sent, s⟩
  unfold Script.backing
  cases hserve : serve? r with
  | some p =>
    obtain ⟨hanswer, hsent⟩ :=
      (inStep_of_serve? hserve).interpret (Comparison.state Sent) h.answer sent
    exact ⟨.some hanswer, congrArg (·, s) hsent⟩
  | none =>
    refine ⟨?_, rfl⟩
    show Option.Rel (Backend.Answer.Alike r) ((around r).run s).1 ((around r).run s).1
    cases ((around r).run s).1 with
    | none => exact .none
    | some a => exact .some (Backend.Answer.alike_refl r a)

/-- **Programs in step are run alike over both databases.** -/
theorem Script.Reworded.running (h : script.Reworded script') (around : Surroundings σ) {α : Type}
    {R : α → α → Prop} {p q : Program Backend α}
    (hpq : InStep (I := Backend) Backend.Answer.Alike R p q) :
    (Comparison.state (Sent × σ)).Holds (Option.Rel R) (script.running around p)
      (script'.running around q) :=
  hpq.interpret (Comparison.stalling _) (h.backing around)

end Database

/-! ## Serving requests -/

namespace Http
open Program Services Database
variable {d : Deployment}

/-- Ends that are told alike have one response. -/
theorem steady_answering {α : Type} {service : Service α} (h : Services.Discreet service)
    (present : α → Response) : Steady (answering present service) := by
  refine InStep.bind h fun ended ended' hended => ?_
  cases hended with
  | ok hresult =>
    rw [hresult]
    exact steady_done _
  | error htold => exact .done htold

theorem Runs.steady {token : Token.Validated} {endpoint : Endpoint}
    (h : Runs d token endpoint) : Steady endpoint := by
  cases h with
  | nothing response => exact steady_done response
  | revoke => exact steady_answering (discreet_revoke _ _) _
  | rotateStamp => exact steady_answering (discreet_rotateStamp _) _
  | listGranted present => exact steady_answering (discreet_listGranted d _) present
  | hasPermission name present => exact steady_answering (discreet_hasPermission d _ name) present
  | setRolePermissions role granted =>
    exact steady_answering (discreet_setRolePermissions d _ role granted) _
  | setUserPermissions owner changes =>
    exact steady_answering (discreet_setUserPermissions d _ owner changes) _
  | setUserRoles owner roles => exact steady_answering (discreet_setUserRoles d _ owner roles) _
  | forceSignOut owner =>
    refine steady_answering ?_ _
    exact (discreet_requirePermission d _ _).bind fun _ => discreet_rotateStamp owner

theorem steady_openEndpoint {r : Request} {route : Route} (hopen : route.isProtected = false) :
    Steady (openEndpoint d r route) := by
  rcases openEndpoint_cases hopen with ⟨response, hdone⟩ | ⟨-, token, -, hanswering⟩
  · rw [hdone]
    exact steady_done response
  · rw [hanswering]
    exact steady_answering (discreet_refreshAccess d _) _

section
variable {σ : Type} {script script' : Script} (h : script.Reworded script')
  (around : Surroundings σ)
include h

/-- **A plan is carried out alike over both databases.**  If the validation of a token fails in
both, the failures are told alike, and if it is never answered, it is so in both. -/
theorem holds_carryOut {r : Request} {p : Plan} (hp : Planned d r p) :
    (Comparison.state (Sent × σ)).Holds (Option.Rel Eq) (p.carryOut d (script.running around))
      (p.carryOut d (script'.running around)) := by
  cases hp with
  | reply response _ => exact (Comparison.state _).pure (.some rfl)
  | serve route _ hopen _ => exact h.running around (steady_openEndpoint hopen)
  | guarded token next _ hruns _ =>
    have hvalidate := h.running around (discreet_validate d token .access)
    refine (Comparison.state _).bind hvalidate fun ended? ended'? hended => ?_
    cases hended with
    | none => exact (Comparison.state _).pure (.some rfl)
    | some hended =>
      cases hended with
      | ok hvalidated =>
        rw [hvalidated]
        exact h.running around (hruns _).steady
      | error htold => exact (Comparison.state _).pure (.some htold)

/-- **A request is served alike over both databases.** -/
theorem serve_eq (d : Deployment) (site : String) (r : Request) :
    serve d site (script.running around) r = serve d site (script'.running around) r := by
  have hserve : (Comparison.state (Sent × σ)).Holds Eq
      (serve d site (script.running around) r) (serve d site (script'.running around) r) := by
    refine (Comparison.state _).bind (holds_carryOut h around (planned d r)) fun a? b? hab => ?_
    refine (Comparison.state _).pure ?_
    cases hab with
    | none => rfl
    | some hresponse => exact congrArg (fun response => some (forSite site r response)) hresponse
  funext s
  exact Prod.ext (hserve s).1 (hserve s).2

end

/-- **The wording of what the database reports reaches no client.**  Of two databases that answer
the same but for the wording of their reports,

* each request to a store sends the same to both, with the same parameters, and either has one
  result or fails with failures for which there is one response;
* each call to a service does so too, whatever the cache, the signer and the clock answer, and it
  leaves them in the same state;
* each request over HTTP has the same response, after the same has been sent.
-/
theorem wording_reaches_no_client {script script' : Script} (h : script.Reworded script') :
    (∀ (r : Backend.Request) (p : Program Database (Backend.Answer r)), serve? r = some p →
      (script.run p).2 = (script'.run p).2 ∧
        Backend.Answer.Alike r (script.run p).1 (script'.run p).1) ∧
    (∀ {σ : Type} (around : Surroundings σ) (d : Deployment) (c : Services.Call) (s : Sent × σ),
      let ended := script.running around (c.service d).run s
      let ended' := script'.running around (c.service d).run s
      ended.2 = ended'.2 ∧ Option.Rel (EndAlike Eq) ended.1 ended'.1) ∧
    ∀ {σ : Type} (around : Surroundings σ) (d : Deployment) (site : String) (r : Request)
      (s : Sent × σ),
      serve d site (script.running around) r s = serve d site (script'.running around) r s := by
  refine ⟨fun r p hserve => ?_, fun around d c s => ?_, fun around d site r s => ?_⟩
  · obtain ⟨hanswer, hsent⟩ :=
      (inStep_of_serve? hserve).interpret (Comparison.state Sent) h.answer []
    exact ⟨congrArg List.reverse hsent, hanswer⟩
  · obtain ⟨hended, hstate⟩ := h.running around (c.discreet d) s
    exact ⟨hstate, hended⟩
  · rw [serve_eq h]

/-- A database that finds the token of a request and cannot remove its record, and that words its
reports in some way. -/
def locked (message : String) : Script where
  begin := .ok ()
  commit := .error ⟨"40001", message⟩
  reply _ s :=
    match s with
    | .selectStamp _ => .ok ⟨[⟨.repeating 1⟩], 1⟩
    | .existsToken _ _ _ => .ok ⟨[true], 1⟩
    | .insertRole _ _ _ => .error ⟨uniqueViolation, message⟩
    | _ => .error ⟨"55P03", message⟩

theorem reworded_locked (message message' : String) :
    (locked message).Reworded (locked message') where
  begin := .ok ()
  commit := .error rfl
  reply n s := by
    cases s with
    | selectStamp user => exact .ok _
    | existsToken user key now => exact .ok _
    | _ => exact .error rfl

/-- Nothing is cached, time stands still, and every token is an access token of the first user. -/
def anyToken : Surroundings Unit
  | .verify _ => pure (.ok (Session.claimsFor {} ⟨⟨1⟩, ⟨.repeating 1⟩⟩ .access none
      ⟨.repeating 2⟩ (.repeating 3) (World.ofStore .empty).now (World.ofStore .empty).now))
  | .now => pure (World.ofStore .empty).now
  | .cacheGet _ => pure (.ok none)
  | .cacheSet _ _ _ => pure (.ok ())
  | .cacheDelete _ => pure (.ok ())
  | _ => failure

/-- A request to sign out. -/
def signOut : Request := ⟨.post, "/api/auth/sign-out", [("authorization", "Bearer t")], ""⟩

/-- The two failures to remove a record are not the same, and yet a request to sign out has the same
response. -/
theorem wording_reaches_no_client_of_locked :
    ((locked "lock timeout").run (deleteToken ⟨1⟩ ⟨.repeating 2⟩).run).1 ≠
      ((locked "deadlock").run (deleteToken ⟨1⟩ ⟨.repeating 2⟩).run).1 ∧
    (locked "lock timeout").Reworded (locked "deadlock") ∧
    serve editing "site" ((locked "lock timeout").running anyToken) signOut ([], ()) =
      serve editing "site" ((locked "deadlock").running anyToken) signOut ([], ()) ∧
    (serve editing "site" ((locked "deadlock").running anyToken) signOut ([], ())).1.map
      (·.status) = some 500 := by
  have hreworded := reworded_locked "lock timeout" "deadlock"
  refine ⟨by decide +kernel, hreworded, ?_, by decide +kernel⟩
  exact (wording_reaches_no_client hreworded).2.2 anyToken editing "site" signOut ([], ())

end Http
end AccessControl
