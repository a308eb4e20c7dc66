import AccessControl.Instant
import AccessControl.Token.Claims

/-! # Issued tokens

What is fixed for all tokens of a service (`Settings`), what is recorded of an issued
token (`Record`) and what its holder receives (`Issued`).  Lifetimes are whole seconds.
-/
namespace AccessControl.Token

/-- What all tokens of a service have in common. -/
structure Settings where
  /-- Who issues the tokens. -/
  issuer : String := "warden"
  /-- For whom they are issued. -/
  audience : String := "warden"
  /-- How many seconds an access token lasts; a day if not set. -/
  accessLifetime : Int := 86400
  /-- How many seconds a refresh token lasts; thirty days if not set. -/
  refreshLifetime : Int := 2592000
  deriving DecidableEq, Repr

/-- How many seconds a token of a kind lasts. -/
def Settings.lifetime (s : Settings) : Kind → Int
  | .access => s.accessLifetime
  | .refresh => s.refreshLifetime

/-- For whom a token is issued. -/
structure Subject where
  userId : UserId
  /-- The user's stamp at the time. -/
  stamp : SecurityStamp
  deriving DecidableEq

/-- What is kept of an issued token. -/
structure Record where
  userId : UserId
  key : TokenKey
  /-- From when on the token is no longer accepted. -/
  expiresAt : Instant
  deriving DecidableEq

/-- A token as its holder receives it. -/
structure Issued where
  text : String
  key : TokenKey
  /-- How many seconds the token lasts. -/
  lifetime : Int
  deriving DecidableEq

/-- The two tokens of a session. -/
structure Pair where
  /-- The access token, linked to the refresh token. -/
  access : Issued
  refresh : Issued
  deriving DecidableEq

/-- A token that was found valid. -/
structure Validated where
  userId : UserId
  claims : Claims
  deriving DecidableEq

end AccessControl.Token
