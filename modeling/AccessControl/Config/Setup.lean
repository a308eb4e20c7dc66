import AccessControl.Config.CacheUrl
import AccessControl.Config.Load
import AccessControl.Program.Deployment

/-! # Setting up the services

The services are set up from a configuration: the cache first, then the catalog, then the
signer.
-/
namespace AccessControl

/-- A cache that was chosen. -/
inductive CacheChoice where
  | memory
  | remote (url lead : String)
  deriving DecidableEq, Repr

/-- Services that are set up. -/
structure Setup where
  deployment : Deployment
  cache : CacheChoice
  signer : Jwt.Signer
  /-- How many milliseconds the validation of a token may take. -/
  deadlineMillis : UInt64

namespace Config

/-- The cache that a configuration chooses, if the client of the remote cache takes its URL. -/
def cacheWith (takes : String → Bool) (c : Config) : Except Failure CacheChoice :=
  match c.cachePlace, c.cacheUrl? with
  | .remote, some url =>
    if takes url then .ok (.remote url c.cacheLead)
    else .error (.validation "invalid REDIS_URL")
  | .remote, none => .error cacheUrlMissing
  | .memory, _ => .ok .memory

/-- Sets up the services with a client of the remote cache. -/
def setupWith (takes : String → Bool) (c : Config) : Except Failure Setup := do
  let cache ← c.cacheWith takes
  let catalog ← Catalog.standard
  let signer ← Jwt.Signer.new c.secret c.tokens.issuer c.tokens.audience
  return {
    deployment := { catalog, cacheSeconds := c.cacheSeconds, tokens := c.tokens }
    cache
    signer
    deadlineMillis := c.deadlineMillis }

/-- Sets up the services. -/
def setup (c : Config) : Except Failure Setup := c.setupWith isCacheUrl

end Config
end AccessControl
