import AccessControl.Session.Issue

/-! # Validating tokens

A presented token must be signed by the service, be of the kind asked for, and name the
issuer and the audience of the service.  It is accepted only while its stamp is the
user's stamp and its key has a live record.  The cache is asked first; if it does not
confirm the token, the store decides.
-/
namespace AccessControl.Session

/-- Checks the kind, the issuer and the audience of a token. -/
def checkClaims (settings : Token.Settings) (claims : Token.Claims) (kind : Token.Kind) :
    Except Rejection Unit :=
  match claims.kind? with
  | none => .error (.missingClaim "token_type")
  | some actual =>
    if actual ≠ kind.name then .error (.wrongKind kind.name actual)
    else if claims.issuer ≠ settings.issuer then .error .wrongIssuer
    else if claims.audience ≠ settings.audience then .error .wrongAudience
    else .ok ()

/-- A check of claims as a step of a service. -/
def refusing {α : Type} (check : Except Rejection α) : Service α :=
  match check with
  | .ok a => return a
  | .error rejection => throw (.rejected rejection)

variable (d : Deployment)

/-- Checks that the stamp of a token is the user's stamp. -/
def checkStamp (user : UserId) (claims : Token.Claims) : Service Unit := do
  let claimed ← refusing claims.stamp
  let cached? ← Cached.stamp user
  if cached?.map (·.stamp) = some claimed then
    return ()
  else
    let current? ← Backend.findStamp user
    if current? = some claimed then
      Cached.store d.cacheSeconds (Cached.Stamp.mk user claimed)
    else
      throw (.rejected .invalidSecurityStamp)

/-- Checks that the key of a token has a live record. -/
def checkKey (user : UserId) (claims : Token.Claims) : Service Unit := do
  let key ← refusing claims.key
  let cached ← Cached.isLive user key
  if cached then
    return ()
  else
    let now ← Backend.now
    let live ← Backend.isTokenLive user key now
    if live then
      Cached.store d.cacheSeconds (Cached.LiveToken.mk user key)
    else
      throw (.rejected .invalidTokenKey)

/-- Validates a presented token of the kind asked for. -/
def validate (token : String) (kind : Token.Kind) : Service Token.Validated := do
  let claims ← Backend.verify token
  refusing (checkClaims d.tokens claims kind)
  let user ← refusing claims.userId
  checkStamp d user claims
  checkKey d user claims
  return ⟨user, claims⟩

/-- Exchanges a refresh token for a new access token linked to it. -/
def refreshAccess (token : String) : Service Token.Issued := do
  let validated ← validate d token .refresh
  let refreshKey ← refusing validated.claims.key
  match ← Backend.findStamp validated.userId with
  | none => throw (.rejected .invalidSecurityStamp)
  | some stamp => issue d ⟨validated.userId, stamp⟩ .access (some refreshKey)

end AccessControl.Session
