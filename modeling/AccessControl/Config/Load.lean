import AccessControl.Jwt.Signer
import AccessControl.Net.Ip
import AccessControl.Token.Issued

/-! # The configuration

The configuration is read from named texts of the environment.  What is not set has a
value of its own, except for the database and the secret, which must be set.  Texts are
read in a fixed order, and the first problem is the one reported.
-/
namespace AccessControl

/-- Named texts. -/
abbrev Environment : Type := String → Option String

/-- Where items are cached. -/
inductive CachePlace where
  | memory
  | remote
  deriving DecidableEq, Repr

/-- What a service is set up with. -/
structure Config where
  databaseUrl : String
  cacheUrl? : Option String
  /-- Where items are cached. -/
  cachePlace : CachePlace
  /-- What stands in front of the keys of a remote cache. -/
  cacheLead : String
  /-- How many seconds an item stays cached. -/
  cacheSeconds : UInt32
  /-- The secret that tokens are signed with. -/
  secret : String
  /-- What all tokens have in common. -/
  tokens : Token.Settings
  /-- How many milliseconds the validation of a token may take. -/
  deadlineMillis : UInt64
  /-- The site whose pages may use the service. -/
  site : String
  /-- The address at which the service listens. -/
  host : String
  /-- The number at which the service listens. -/
  hostNumber : UInt16
  deriving DecidableEq

namespace Config

/-- A text that must be set. -/
def required (env : Environment) (name : String) : Except Failure String :=
  match env name with
  | some value => .ok value
  | none => .error (.validation (name ++ " is required"))

/-- A number, blanks around it aside; if it is not set, `default`. -/
def number (env : Environment) (bounds : Decimal.Bounds) (name : String) (default : Int) :
    Except Failure Int :=
  match env name with
  | none => .ok default
  | some value =>
    match Decimal.read bounds (trimChars value.toList) with
    | .ok n => .ok n
    | .error fault => .error (.validation ("invalid " ++ name ++ ": " ++ fault.message))

/-- The longest lifetime in seconds. -/
def maxLifetime : Int := 9223372036854775

/-- A lifetime in seconds: positive, and not too long. -/
def lifetime (env : Environment) (name : String) (default : Int) : Except Failure Int := do
  let seconds ← number env .signed64 name default
  failIf (seconds ≤ 0) (.validation (name ++ " must be positive"))
  failIf (maxLifetime < seconds) (.validation (name ++ " is out of range"))
  return seconds

/-- A remote cache is wanted and it is not said where it is. -/
def cacheUrlMissing : Failure :=
  .validation "REDIS_URL is required when CACHE_BACKEND is 'redis'"

/-- Where the remote cache is; a blank text does not count. -/
def cacheUrlOf (env : Environment) : Option String :=
  (env "REDIS_URL").filter (fun value => !isBlankText value)

/-- Where items are cached: as it is said, or else remotely if it is said where. -/
def cachePlaceOf (env : Environment) : Except Failure CachePlace :=
  match env "CACHE_BACKEND" with
  | some "redis" => .ok .remote
  | some "in_memory" => .ok .memory
  | some other => .error (.validation
      ("CACHE_BACKEND must be either 'redis' or 'in_memory', got '" ++ other ++ "'"))
  | none => .ok (if (cacheUrlOf env).isSome then .remote else .memory)

/-- The number at which the service listens; one that cannot be read does not count. -/
def hostNumberOf (env : Environment) : UInt16 :=
  match (env "API_PORT").map (fun value => Decimal.read .unsigned16 value.toList) with
  | some (.ok n) => UInt16.ofNat n.toNat
  | _ => 3001

/-- Reads the configuration. -/
def load (env : Environment) : Except Failure Config := do
  let databaseUrl ← required env "DATABASE_URL"
  let cacheUrl? := cacheUrlOf env
  let cachePlace ← cachePlaceOf env
  failIf (cachePlace = .remote ∧ cacheUrl?.isNone) cacheUrlMissing
  let cacheSeconds ← number env .unsigned32 "CACHE_TTL_SECONDS" 3600
  let secret ← required env "JWT_SECRET"
  failIf (secret.utf8ByteSize < Jwt.minSecretLength)
    (.validation ("JWT_SECRET must be at least " ++ Decimal.text Jwt.minSecretLength ++
      " characters"))
  let defaults : Token.Settings := {}
  let accessLifetime ← lifetime env "ACCESS_TOKEN_TTL_SECONDS" defaults.accessLifetime
  let refreshLifetime ← lifetime env "REFRESH_TOKEN_TTL_SECONDS" defaults.refreshLifetime
  let deadlineMillis ← number env .unsigned64 "AUTH_DEADLINE_MS" 5000
  return {
    databaseUrl
    cacheUrl?
    cachePlace
    cacheLead := (env "CACHE_KEY_PREFIX").getD "warden"
    cacheSeconds := UInt32.ofNat cacheSeconds.toNat
    secret
    tokens := {
      issuer := (env "JWT_ISSUER").getD defaults.issuer
      audience := (env "JWT_AUDIENCE").getD defaults.audience
      accessLifetime
      refreshLifetime }
    deadlineMillis := UInt64.ofNat deadlineMillis.toNat
    site := (env "FRONTEND_URL").getD "http://localhost:3000"
    host := (env "API_HOST").getD "127.0.0.1"
    hostNumber := hostNumberOf env }

/-- Where the service listens, in printed form. -/
def socketAddress (c : Config) : Except Failure String :=
  match Net.Ip.ofText? c.host with
  | some ip => .ok (ip.textWith c.hostNumber.toNat)
  | none =>
    .error (.internal ("invalid API_HOST '" ++ c.host ++ "': invalid IP address syntax"))

end Config
end AccessControl
