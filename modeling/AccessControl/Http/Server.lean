import AccessControl.Http.Endpoint

/-! # Serving requests

A request is answered at once, served by a program, or guarded: the token that it brings
is validated first, and only then is it served for the token's user (`Plan`).  A
validation that takes too long is given up and refuses the request.

On a protected path the token is checked before the method.  A request that asks what is
allowed is answered at once on every path.
-/
namespace AccessControl.Http

/-- How a request is going to be answered. -/
inductive Plan where
  /-- The response is known. -/
  | reply (response : Response)
  /-- The request is served without a token. -/
  | serve (endpoint : Endpoint)
  /-- The request is served if a token is valid. -/
  | guarded (token : String) (next : Token.Validated → Endpoint)

/-- What comes before the token in a header. -/
def scheme : String := "Bearer "

/-- The token that a request brings. -/
def bearerToken (r : Request) : Except Failure String :=
  match (r.headers.get? "authorization").bind visible? with
  | none => .error (.unauthorized "bearer token required")
  | some value =>
    let token := trim (String.ofList (value.toList.drop scheme.length))
    if scheme.toList.isPrefixOf value.toList && !token.isEmpty then .ok token
    else .error (.unauthorized "bearer token required")

/-- The path leads nowhere. -/
def notFound : Response := .plain 404

/-- The route has another method. -/
def methodNotAllowed : Response := .plain 405

/-- The validation of a token took too long. -/
def timedOut : Response := failureResponse (.unauthorized "token validation timed out")

/-- A request is answered without a body if it asks for none. -/
def trimBody (r : Request) (response : Response) : Response :=
  if r.method = .head then response.withoutBody else response

/-- How a request is going to be answered. -/
def plan (d : Deployment) (r : Request) : Plan :=
  if r.method = .options then .reply (.plain 200)
  else
    match Route.ofPath? r.path with
    | none => .reply notFound
    | some route =>
      if route.isProtected then
        match bearerToken r with
        | .error failure => .reply (failureResponse failure)
        | .ok token =>
          .guarded token fun validated =>
            if route.accepts r.method then protectedEndpoint d r validated route
            else return methodNotAllowed
      else if route.accepts r.method then .serve (openEndpoint d r route)
      else .reply methodNotAllowed

/-- Carries out a plan.  Each program is run by `run`, which may come to no end. -/
def Plan.carryOut {m : Type → Type} [Monad m] (d : Deployment)
    (run : {α : Type} → Program Backend α → m (Option α)) : Plan → m (Option Response)
  | .reply response => pure (some response)
  | .serve endpoint => run endpoint
  | .guarded token next => do
    match ← run (Session.validate d token .access).run with
    | none => return some timedOut
    | some (.error failure) => return some (failureResponse failure)
    | some (.ok validated) => run (next validated)

/-! ## Who may use a response -/

/-- The headers of every response, for pages that come from a site. -/
def siteHeaders (site : String) : Headers := [("access-control-allow-origin", site)]

/-- The headers of the response to a request that asks what is allowed. -/
def preflightHeaders (site : String) : Headers :=
  siteHeaders site ++
    [("access-control-allow-methods", "GET,POST,PUT,OPTIONS"),
     ("access-control-allow-headers", "authorization,content-type")]

/-- Checks the site that pages come from. -/
def checkSite (site : String) : Except Failure Unit :=
  if isHeaderValue site then .ok ()
  else .error (.internal "invalid FRONTEND_URL: failed to parse header value")

/-- A response as it is sent to pages of a site. -/
def forSite (site : String) (r : Request) (response : Response) : Response :=
  let headers := if r.method = .options then preflightHeaders site else siteHeaders site
  { trimBody r response with headers }

/-- Answers a request. -/
def serve {m : Type → Type} [Monad m] (d : Deployment) (site : String)
    (run : {α : Type} → Program Backend α → m (Option α)) (r : Request) :
    m (Option Response) := do
  return (← (plan d r).carryOut d run).map (forSite site r)

end AccessControl.Http
