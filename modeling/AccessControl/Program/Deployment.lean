import AccessControl.Permission.Catalog
import AccessControl.Token.Issued

/-! # What is fixed while a service runs -/
namespace AccessControl

/-- The choices made once for all services that share the stores. -/
structure Deployment where
  catalog : Catalog
  cacheSeconds : UInt32
  tokens : Token.Settings

end AccessControl
