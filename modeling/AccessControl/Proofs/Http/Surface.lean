import AccessControl.Proofs.Http.Bearer
import AccessControl.Proofs.Http.Confined
import AccessControl.Proofs.Http.Serving
import AccessControl.Proofs.Session.Exchange
import AccessControl.Proofs.Session.SignOut

/-! # The surface is closed

Whoever changes the store by a request either brings an access token that is accepted, and then
only what is open to its user changes, or exchanges a refresh token for an access token
(`surface_is_closed`).  This holds in every world that is reached by requests, by the other services
and by drifts, if the cache was empty at the start (`Reached`): such a world is coherent, so the
permissions that an endpoint requires are those that a full resolution gives.

A request for a protected route whose token is not accepted changes nothing.  The response is that
the user is not authenticated, also if the validation takes too long.  Only if a store has failed
while the token was validated is that failure told instead (`status_500_when_store_fails`).
-/
namespace AccessControl.Http
open World Outside Program Authorization
variable {d : Deployment} {site : String} {r : Request} {start w w' : World}
  {t : List (Exchange Backend)} {answer : Option Response} {response : Response}

/-- **A request is for a protected route**, by its path and its method. -/
def Request.IsProtected (r : Request) : Prop :=
  ∃ route, Route.ofPath? r.path = some route ∧ route.isProtected = true ∧
    route.accepts r.method = true

/-- A request that brings no token is not authenticated. -/
def noToken : Response := failureResponse (.unauthorized "bearer token required")

/-- How requests are going to be answered. -/
inductive Planned (d : Deployment) (r : Request) : Plan → Prop where
  /-- Nothing is run. -/
  | reply (response : Response) (h : r.IsProtected → response = noToken) :
    Planned d r (.reply response)
  /-- The route is open. -/
  | serve (route : Route) (hpath : Route.ofPath? r.path = some route)
    (hopen : route.isProtected = false) (haccepts : route.accepts r.method = true) :
    Planned d r (.serve (openEndpoint d r route))
  /-- A token is validated first. -/
  | guarded (token : String) (next : Token.Validated → Endpoint) (hbrings : r.Brings token)
    (hruns : ∀ validated, Runs d validated (next validated))
    (hother : ¬r.IsProtected → ∀ validated, next validated = .done methodNotAllowed) :
    Planned d r (.guarded token next)

theorem planned (d : Deployment) (r : Request) : Planned d r (plan d r) := by
  rw [plan]
  split
  case isTrue hoptions =>
    refine .reply _ ?_
    rintro ⟨route, -, -, haccepts⟩
    rw [hoptions] at haccepts
    cases route <;> cases haccepts
  case isFalse =>
    cases hpath : Route.ofPath? r.path with
    | none =>
      refine .reply _ ?_
      rintro ⟨route, hroute, -, -⟩
      exact nomatch hpath.symm.trans hroute
    | some route =>
      dsimp only
      split
      case isTrue hprotected =>
        rcases bearerToken_cases r with ⟨token, htoken, hbrings⟩ | hnone
        · rw [htoken]
          refine .guarded token _ hbrings (fun validated => ?_) fun hother validated => ?_
          · split
            · exact runs_protectedEndpoint r validated route
            · exact .nothing _
          · exact if_neg fun haccepts => hother ⟨route, hpath, hprotected, haccepts⟩
        · rw [hnone]
          exact .reply _ fun _ => rfl
      case isFalse hopen =>
        split
        case isTrue haccepts => exact .serve route hpath (Bool.eq_false_iff.mpr hopen) haccepts
        case isFalse =>
          refine .reply _ ?_
          rintro ⟨other, hother, hprotected, -⟩
          obtain rfl := Option.some.inj (hpath.symm.trans hother)
          exact absurd hprotected hopen

/-! ## Open routes -/

/-- **A refresh token is exchanged by a request**: it is posted to its route and carries a refresh
token that brings an access token. -/
def Exchanged (d : Deployment) (r : Request) (w : World) (t : List (Exchange Backend))
    (w' : World) : Prop :=
  r.method = .post ∧ Route.ofPath? r.path = some .refresh ∧
    ∃ token, r.payload readRefreshToken = .ok token ∧ Session.Refreshes d (trim token) w t w'

/-- What serves an open route is a known response or an exchange. -/
theorem openEndpoint_cases {route : Route} (hopen : route.isProtected = false) :
    (∃ response, openEndpoint d r route = .done response) ∨
      route = .refresh ∧ ∃ token, r.payload readRefreshToken = .ok token ∧
        openEndpoint d r route = answering (fun issued => .ok (issuedJson issued))
          (Session.refreshAccess d (trim token)) := by
  cases route with
  | health => exact .inl ⟨_, rfl⟩
  | refresh =>
    cases htoken : r.payload readRefreshToken with
    | error response =>
      refine .inl ⟨response, ?_⟩
      rw [openEndpoint, htoken]
      rfl
    | ok token =>
      refine .inr ⟨rfl, token, rfl, ?_⟩
      rw [openEndpoint, htoken]
      rfl
  | _ => cases hopen

/-- **Through an open route nothing is stored but the record of an access token.** -/
theorem store_of_openEndpoint {route : Route} (hpath : Route.ofPath? r.path = some route)
    (hopen : route.isProtected = false) (haccepts : route.accepts r.method = true)
    (ht : (openEndpoint d r route).Begins t) (hf : Session.outside.Follows w t w') :
    w'.store = w.store ∨ Exchanged d r w t w' := by
  rcases openEndpoint_cases hopen with ⟨response, hdone⟩ | ⟨rfl, token, htoken, hanswering⟩
  · rw [hdone] at ht
    obtain rfl := begins_done ht
    rw [follows_nil_iff.mp hf]
    exact .inl rfl
  · rw [hanswering] at ht
    rcases Session.store_of_refreshAccess (begins_answering ht) hf with hsame | hrefreshes
    · exact .inl hsame
    · have hpost : r.method = .post := by
        have hnotGet : (Route.refresh.method == Method.get) = false := rfl
        rw [Route.accepts, hnotGet, Bool.and_false, Bool.or_false, beq_iff_eq] at haccepts
        exact haccepts
      exact .inr ⟨hpost, hpath, token, htoken, hrefreshes⟩

theorem ensures_coherent_openEndpoint {route : Route} (hopen : route.isProtected = false)
    (hw : w.Coherent d.catalog) :
    Session.outside.Ensures (openEndpoint d r route) w fun _ w' => w'.Coherent d.catalog := by
  rcases openEndpoint_cases hopen with ⟨response, hdone⟩ | ⟨rfl, token, -, hanswering⟩
  · rw [hdone]
    exact ensures_done.mpr hw
  · rw [hanswering]
    exact ensures_answering (Session.Call.refreshAccess (trim token)).keeps hw

/-! ## Protected routes -/

/-- **A request is refused**: nothing is changed, and the response is that the user is not
authenticated, or it tells the failure of a store. -/
def Refused (w : World) (t : List (Exchange Backend)) (answer : Option Response) (w' : World) :
    Prop :=
  w'.store = w.store ∧ ∃ response, answer = some response ∧ (response.status = 401 ∨
    ∃ failure, Session.StoreFailed failure t ∧ response.status = statusOf failure)

/-- **A request is admitted**: it brings an access token that is accepted, and whatever changes is
open to the user of the token, by what a full resolution gives when the token was accepted. -/
def Admitted (d : Deployment) (r : Request) (w : World) (t : List (Exchange Backend))
    (w' : World) : Prop :=
  ∃ token validated t₁ t₂ m held, t = t₁ ++ t₂ ∧ r.Brings token ∧
    Session.Accepted d token .access validated w t₁ m ∧
    lossy.Yields (resolveUser d validated.userId).run m (fun resolved _ => resolved = .ok held) ∧
    ∀ aspect : Aspect, w.store.SameIn w'.store aspect ∨ aspect.OpenTo validated.userId held

/-- **A request with a token is refused or admitted.** -/
theorem refused_or_admitted_of_guarded {token : String} {next : Token.Validated → Endpoint}
    (hw : w.Coherent d.catalog) (hbrings : r.Brings token)
    (hruns : ∀ validated, Runs d validated (next validated))
    (h : Guarded d Session.outside token next w t answer w') :
    Refused w t answer w' ∨ Admitted d r w t w' := by
  have hreads := Session.reads_validate (d := d) token .access
  cases h with
  | stalled hbegins hf =>
    have hstore := (follows_reading hf (hreads.begins hbegins)).1
    exact .inl ⟨hstore, timedOut, rfl, .inl rfl⟩
  | @refused _ failure _ hends hf =>
    have hstore := (follows_reading hf (hreads _ _ hends)).1
    refine .inl ⟨hstore, failureResponse failure, rfl, ?_⟩
    rcases Session.failsByStore_validate t failure hends with ⟨rejection, rfl⟩ | hfailed
    · exact .inl rfl
    · exact .inr ⟨failure, hfailed, rfl⟩
  | @admitted t₁ t₂ validated _ m _ hends hf hnext =>
    have haccepted : Session.Accepted d token .access validated w t₁ m := ⟨hends, hf⟩
    have hm : m.Coherent d.catalog :=
      (Session.Call.validate token .access).keeps w hw _ _ _ hends hf
    refine .inr ⟨token, validated, t₁, t₂, m, _, rfl, hbrings, haccepted,
      yields_of_ensures (ensures_resolveUser.mono fun _ _ hr => hr.1), fun aspect => ?_⟩
    rw [← haccepted.store]
    exact (hruns validated).confined.sameIn_or_openTo hm (begins_of_attempt hnext) hnext.1 aspect

theorem Refused.forSite (h : Refused w t answer w') :
    Refused w t (answer.map (forSite site r)) w' := by
  obtain ⟨hstore, response, rfl, hstatus⟩ := h
  refine ⟨hstore, _, rfl, ?_⟩
  rwa [status_forSite]

/-- **For a protected route a request is refused or admitted.** -/
theorem refused_or_admitted (hw : w.Coherent d.catalog) (hprotected : r.IsProtected)
    (h : Served d site Session.outside r w t answer w') :
    Refused w t answer w' ∨ Admitted d r w t w' := by
  obtain ⟨planned?, hcarried, rfl⟩ := served_iff.mp h
  have hplan := planned d r
  generalize plan d r = p at hcarried hplan
  cases hplan with
  | reply response hresponse =>
    obtain ⟨rfl, rfl, rfl⟩ := hcarried
    have hrefused : Refused w' [] (some noToken) w' := ⟨rfl, noToken, rfl, .inl rfl⟩
    rw [hresponse hprotected]
    exact .inl hrefused.forSite
  | serve route hpath hopen haccepts =>
    obtain ⟨other, hother, hprotected, -⟩ := hprotected
    obtain rfl := Option.some.inj (hpath.symm.trans hother)
    exact absurd (hopen.symm.trans hprotected) Bool.false_ne_true
  | guarded token next hbrings hruns _ =>
    exact (refused_or_admitted_of_guarded hw hbrings hruns
      (carryOut_guarded_iff.mp hcarried)).imp_left Refused.forSite

/-- **For any other route a request changes nothing in the store, or it exchanges a refresh
token.** -/
theorem store_or_exchanged (hother : ¬r.IsProtected)
    (h : Served d site Session.outside r w t answer w') :
    w'.store = w.store ∨ Exchanged d r w t w' := by
  obtain ⟨planned?, hcarried, -⟩ := served_iff.mp h
  have hplan := planned d r
  generalize plan d r = p at hcarried hplan
  cases hplan with
  | reply response _ =>
    obtain ⟨rfl, rfl, rfl⟩ := hcarried
    exact .inl rfl
  | serve route hpath hopen haccepts =>
    exact store_of_openEndpoint hpath hopen haccepts (begins_of_attempt hcarried) hcarried.1
  | guarded token next _ _ hnothing =>
    have hreads := Session.reads_validate (d := d) token .access
    cases carryOut_guarded_iff.mp hcarried with
    | stalled hbegins hf => exact .inl (follows_reading hf (hreads.begins hbegins)).1
    | refused hends hf => exact .inl (follows_reading hf (hreads _ _ hends)).1
    | @admitted t₁ t₂ validated _ m _ hends hf hnext =>
      have hbegins := begins_of_attempt hnext
      rw [hnothing hother validated] at hbegins
      obtain rfl := begins_done hbegins
      rw [follows_nil_iff.mp hnext.1]
      exact .inl (follows_reading hf (hreads _ _ hends)).1

/-! ## What is reached -/

/-- **What an answered request leaves is coherent.** -/
theorem coherent_of_served (hw : w.Coherent d.catalog)
    (h : Served d site Session.outside r w t (some response) w') : w'.Coherent d.catalog := by
  obtain ⟨planned?, hcarried, hanswer⟩ := served_iff.mp h
  cases planned? with
  | none => cases hanswer
  | some response =>
  have hplan := planned d r
  generalize plan d r = p at hcarried hplan
  cases hplan with
  | reply response _ =>
    obtain ⟨rfl, -, rfl⟩ := hcarried
    exact hw
  | serve route _ hopen _ =>
    exact ensures_coherent_openEndpoint hopen hw _ _ _ hcarried.2 hcarried.1
  | guarded token next _ hruns _ =>
    have hleaves := (Session.Call.validate token .access).asks_leavesDecisions (d := d)
    cases carryOut_guarded_iff.mp hcarried with
    | stalled hbegins hf => exact hw.follows hf (hleaves.begins hbegins)
    | refused hends hf => exact hw.follows hf (hleaves _ _ hends)
    | @admitted t₁ t₂ validated _ m _ hends hf hnext =>
      have hm := hw.follows hf (hleaves _ _ hends)
      exact (hruns validated).ensures_coherent hm _ _ _ hnext.2 hnext.1

/-- **The worlds that are reached**: by requests that are answered, by other calls that end, and by
drifts. -/
inductive Reached (d : Deployment) (site : String) (start : World) : World → Prop where
  | start : Reached d site start start
  /-- The cache loses or spoils values, and time passes. -/
  | drift {w w' : World} (h : Reached d site start w) (hw : Drifts w w') : Reached d site start w'
  /-- A request has been answered. -/
  | served {w w' : World} (h : Reached d site start w) (r : Request)
    {t : List (Exchange Backend)} {response : Response}
    (hserved : Served d site Session.outside r w t (some response) w') : Reached d site start w'
  /-- A call to a service of sessions has ended. -/
  | session {w w' : World} (h : Reached d site start w) (c : Session.Call)
    {t : List (Exchange Backend)} {ended : Except Failure c.Result}
    (ht : (c.service d).run.Transcript t ended) (hf : Session.outside.Follows w t w') :
    Reached d site start w'
  /-- A call to a service that resolves, decides or administers has ended. -/
  | administration {w w' : World} (h : Reached d site start w) (c : Administration.Call)
    {t : List (Exchange Backend)} {ended : Except Failure c.Result}
    (ht : (c.service d).run.Transcript t ended) (hf : Session.outside.Follows w t w') :
    Reached d site start w'

/-- **From an empty cache only coherent worlds are reached.** -/
theorem Reached.coherent (h : Reached d site start w) (hstart : start.cache.entries = ∅) :
    w.Coherent d.catalog := by
  induction h with
  | start => exact coherent_of_empty hstart
  | drift _ hw ih => exact ih.refills (.of_drifts hw)
  | served _ r hserved ih => exact coherent_of_served ih hserved
  | session _ c ht hf ih => exact c.keeps _ ih _ _ _ ht hf
  | administration _ c ht hf ih => exact c.keeps (fun _ => rfl) d _ ih _ _ _ ht hf

/-! ## Every request -/

section Runs
variable {mayFail : Backend.Request → Bool}

/-- A program that is run on a world is run to its end. -/
theorem attempt_run {α : Type} (p : Program Backend α) (w : World) :
    (unreliable mayFail).attempt p w (exchanges p w) (some (World.run p w).1) (World.run p w).2 :=
  ⟨follows_exchanges p w, transcript_exchanges p w⟩

/-- Every request is answered if all goes well. -/
theorem exists_served (d : Deployment) (site : String) (r : Request) (w : World) :
    ∃ t response w', Served d site (unreliable mayFail) r w t (some response) w' := by
  suffices hcarried : ∃ t response w',
      (plan d r).carryOut d (unreliable mayFail).attempt w t (some response) w' by
    obtain ⟨t, response, w', h⟩ := hcarried
    exact ⟨t, _, w', served_iff.mpr ⟨_, h, rfl⟩⟩
  cases plan d r with
  | reply response => exact ⟨[], response, w, rfl, rfl, rfl⟩
  | serve endpoint => exact ⟨_, _, _, attempt_run endpoint w⟩
  | guarded token next =>
    have hends := transcript_exchanges (Session.validate d token .access).run w
    have hf : (unreliable mayFail).Follows w _ _ :=
      follows_exchanges (Session.validate d token .access).run w
    cases hvalidated : (World.run (Session.validate d token .access).run w).1 with
    | error failure =>
      rw [hvalidated] at hends
      exact ⟨_, _, _, carryOut_guarded_iff.mpr (.refused hends hf)⟩
    | ok validated =>
      rw [hvalidated] at hends
      exact ⟨_, _, _, carryOut_guarded_iff.mpr (.admitted hends hf (attempt_run _ _))⟩

end Runs

/-- **The surface is closed.**  In every world that is reached, every request may be answered, and
however it is served: for a protected route it is refused or admitted, and for any other route it
changes nothing in the store, or it exchanges a refresh token. -/
theorem surface_is_closed (h : Reached d site start w) (hstart : start.cache.entries = ∅)
    (r : Request) :
    (∃ t response w', Served d site Session.outside r w t (some response) w') ∧
    ∀ t answer w', Served d site Session.outside r w t answer w' →
      (r.IsProtected → Refused w t answer w' ∨ Admitted d r w t w') ∧
      (¬r.IsProtected → w'.store = w.store ∨ Exchanged d r w t w') :=
  ⟨exists_served d site r w, fun _ _ _ hserved =>
    ⟨fun hprotected => refused_or_admitted (h.coherent hstart) hprotected hserved,
      fun hother => store_or_exchanged hother hserved⟩⟩

/-! ## One user who signs in -/

section SignedIn
open Session

/-- The access token of the one user. -/
def accessToken : String := oneUser.signer.sign accessClaims

/-- A request for the permissions that there are. -/
def listing : Request :=
  ⟨.get, "/api/permissions", [("Authorization", scheme ++ accessToken)], ""⟩

theorem path_listing : Route.ofPath? listing.path = some .catalog := by decide +kernel

theorem isProtected_listing : listing.IsProtected := ⟨.catalog, path_listing, rfl, rfl⟩

theorem brings_listing : listing.Brings accessToken :=
  brings_sign (get?_cons [] (by decide))

theorem reached_signedIn : Reached lone "" oneUser signedIn := by
  obtain ⟨pair, hissue, -, -⟩ := run_issuePair_oneUser
  have hsession : Reached lone "" oneUser (World.run (issuePair lone alice).run oneUser).2 :=
    .session .start (.issuePair alice) (transcript_exchanges _ oneUser)
      (follows_exchanges _ oneUser)
  rwa [hissue] at hsession

/-- A user who has signed in brings a token that is accepted. -/
theorem surface_is_closed_to_signedIn :
    listing.IsProtected ∧ listing.Brings accessToken ∧
      (∃ t m, Accepted lone accessToken .access ⟨alice.userId, accessClaims⟩ signedIn t m) ∧
      (∃ t response w', Served lone "" outside listing signedIn t (some response) w') ∧
      ∀ t answer w', Served lone "" outside listing signedIn t answer w' →
        Refused signedIn t answer w' ∨ Admitted lone listing signedIn t w' := by
  obtain ⟨hserved, hclosed⟩ := surface_is_closed reached_signedIn rfl listing
  have hends := transcript_exchanges (validate lone accessToken .access).run signedIn
  have haccepts : (World.run (validate lone accessToken .access).run signedIn).1 =
      .ok ⟨alice.userId, accessClaims⟩ := accepts_signedIn signedIn.drawn
  rw [haccepts] at hends
  exact ⟨isProtected_listing, brings_listing, ⟨_, _, hends, follows_exchanges _ signedIn⟩, hserved,
    fun t answer w' h => (hclosed t answer w' h).1 isProtected_listing⟩

/-- Whoever brings a token to a protected route has it validated. -/
theorem plan_of_brings {token : String} (hprotected : r.IsProtected) (hbrings : r.Brings token) :
    ∃ next, plan d r = .guarded token next := by
  obtain ⟨route, hpath, hroute, haccepts⟩ := hprotected
  have hmethod : r.method ≠ .options := by
    intro hoptions
    rw [hoptions] at haccepts
    cases route <;> cases haccepts
  rw [plan, if_neg hmethod, hpath]
  dsimp only
  rw [if_pos hroute, bearerToken_eq_ok_iff.mpr hbrings]
  exact ⟨_, rfl⟩

theorem answers_served {q : Backend.Request} {a : Backend.Answer q}
    (h : World.answer q w = (a, w')) : outside.Answers q w a w' := by
  have hserved : outside.Answers q w (World.answer q w).1 (World.answer q w).2 :=
    ⟨w, .refl w, .served⟩
  rwa [h] at hserved

/-- The store of stamps is offline. -/
def offline : Failure := .internal "find_security_stamp offline"

/-- What is exchanged when the access token is validated and the store of stamps is offline. -/
def failedValidation : Log :=
  [⟨.verify accessToken, .ok accessClaims⟩,
    ⟨.cacheGet (CacheKey.securityStamp alice.userId).text, .ok none⟩,
    ⟨.findStamp alice.userId, .error offline⟩]

theorem follows_failedValidation : outside.Follows signedIn failedValidation signedIn := by
  have hverified : signedIn.signer.verify signedIn.now accessToken = .ok accessClaims := by
    have hchecked : oneUser.signer.checkClaims signedIn.now accessClaims = .ok () := rfl
    show oneUser.signer.verify signedIn.now (oneUser.signer.sign accessClaims) = _
    rw [Jwt.Signer.verify_sign, hchecked]
    rfl
  have hverify : World.answer (.verify accessToken) signedIn = (.ok accessClaims, signedIn) :=
    congrArg (·, signedIn) hverified
  have hget : World.answer (.cacheGet (CacheKey.securityStamp alice.userId).text) signedIn =
      (.ok none, signedIn) := rfl
  refine .cons (answers_served hverify) (.cons (answers_served hget) (.cons ?_ (.nil _)))
  exact ⟨signedIn, .refl signedIn, .refused rfl rfl⟩

theorem transcript_failedValidation :
    (validate lone accessToken .access).run.Transcript failedValidation (.error offline) := by
  have hclaims : checkClaims lone.tokens accessClaims .access = .ok () := checkClaims_claimsFor ..
  have huser : accessClaims.userId = .ok alice.userId := userId_claimsFor ..
  have hstamp : accessClaims.stamp = .ok alice.stamp := stamp_claimsFor ..
  have hchecking : (checkStamp lone alice.userId accessClaims).run.Transcript
      [⟨.cacheGet (CacheKey.securityStamp alice.userId).text, .ok none⟩,
        ⟨.findStamp alice.userId, .error offline⟩] (.error offline) := by
    rw [checkStamp, hstamp, refusing, pure_bind]
    -- Nothing is cached of the stamp, so it is looked up.
    refine transcript_run_bind_iff.mpr (.inl ⟨[_], none, [_], rfl, ?_, ?_⟩)
    · exact transcript_run_lift_iff.mpr ⟨none, rfl, .call (.done none)⟩
    · exact transcript_run_bind_iff.mpr (.inr ⟨offline, rfl, transcript_request_iff.mpr rfl⟩)
  rw [validate_run_eq]
  refine .call ?_
  rw [validateVerified, hclaims, huser, refusing, refusing, pure_bind, pure_bind]
  exact transcript_run_bind_iff.mpr (.inr ⟨offline, rfl, hchecking⟩)

/-- **The failure of a store is told as such**: a user who has signed in asks for the permissions
while the store of stamps is offline.  Nobody is admitted, and yet the response is not that the user
is not authenticated. -/
theorem status_500_when_store_fails :
    Reached lone "" oneUser signedIn ∧ listing.IsProtected ∧
      ∃ t response w', Served lone "" outside listing signedIn t (some response) w' ∧
        ¬Admitted lone listing signedIn t w' ∧ response.status = 500 := by
  obtain ⟨next, hplan⟩ : ∃ next, plan lone listing = .guarded accessToken next :=
    plan_of_brings isProtected_listing brings_listing
  refine ⟨reached_signedIn, isProtected_listing, failedValidation, _, signedIn,
    served_iff.mpr ⟨some (failureResponse offline), ?_, rfl⟩, ?_, ?_⟩
  · rw [hplan]
    exact carryOut_guarded_iff.mpr
      (.refused transcript_failedValidation follows_failedValidation)
  · rintro ⟨token, validated, t₁, t₂, m, held, heq, hbrings, haccepted, -⟩
    obtain rfl : accessToken = token := Except.ok.inj
      ((bearerToken_eq_ok_iff.mpr brings_listing).symm.trans (bearerToken_eq_ok_iff.mpr hbrings))
    obtain ⟨-, hended⟩ := haccepted.ends.eq_of_append (heq ▸ transcript_failedValidation)
    cases hended
  · exact status_forSite _

end SignedIn

end AccessControl.Http
