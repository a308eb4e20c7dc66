import AccessControl.Cached.Access
import AccessControl.Program.Deployment

/-! # Issuing tokens

An issued token is signed, its record is stored, and it is cached as live.  A refresh
token and the access tokens issued with it are linked: the access token carries the key
of the refresh token, so that both can be revoked together.
-/
namespace AccessControl.Session

/-- The expiry of a token lies beyond the instants there are. -/
def expiryOutOfRange : Failure := .internal "token expiry is out of range"

/-- What a token says that is issued at an instant. -/
def claimsFor (settings : Token.Settings) (subject : Token.Subject) (kind : Token.Kind)
    (refreshKey : Option TokenKey) (key : TokenKey) (tokenId : Uuid)
    (issuedAt expiresAt : Instant) : Token.Claims where
  subject := subject.userId.text
  issuer := settings.issuer
  audience := settings.audience
  issuedAt := issuedAt.seconds
  notBefore := issuedAt.seconds
  expiresAt := expiresAt.seconds
  tokenId := tokenId.text
  stamp? := some subject.stamp.text
  key? := some key.text
  kind? := some kind.name
  refreshKey? :=
    match kind with
    | .access => refreshKey.map TokenKey.text
    | .refresh => none

variable (d : Deployment)

/-- Issues a token; only access tokens carry the key of a refresh token. -/
def issue (subject : Token.Subject) (kind : Token.Kind) (refreshKey : Option TokenKey) :
    Service Token.Issued := do
  let key := TokenKey.mk (← Backend.fresh)
  let lifetime := d.tokens.lifetime kind
  let issuedAt ← Backend.now
  match issuedAt.add? lifetime with
  | none => throw expiryOutOfRange
  | some expiresAt =>
    let tokenId ← Backend.fresh
    let text ← Backend.sign
      (claimsFor d.tokens subject kind refreshKey key tokenId issuedAt expiresAt)
    Backend.createToken ⟨subject.userId, key, expiresAt⟩
    Cached.store d.cacheSeconds (Cached.LiveToken.mk subject.userId key)
    return ⟨text, key, lifetime⟩

/-- Issues a refresh token and an access token linked to it. -/
def issuePair (subject : Token.Subject) : Service Token.Pair := do
  let refresh ← issue d subject .refresh none
  let access ← issue d subject .access (some refresh.key)
  return ⟨access, refresh⟩

end AccessControl.Session
