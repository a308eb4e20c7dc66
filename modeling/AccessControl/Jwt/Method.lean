import AccessControl.Json.Record

/-! # Ways to sign

The ways to sign are known by name.  The service signs in one way only and does not tell the
others apart.
-/
namespace AccessControl.Jwt

/-- The ways to sign that a header may name. -/
inductive Method where
  /-- A keyed hash of 256 bits, the one method of the service. -/
  | hs256
  /-- Any other method. -/
  | other
  deriving DecidableEq, Repr

/-- The methods by name. -/
def Method.byName : List (String × Method) :=
  [("HS256", .hs256), ("HS384", .other), ("HS512", .other), ("ES256", .other),
   ("ES384", .other), ("RS256", .other), ("RS384", .other), ("RS512", .other),
   ("PS256", .other), ("PS384", .other), ("PS512", .other), ("EdDSA", .other)]

/-- Reads the name of a method. -/
def Method.read : Json.Reader Method := Json.readName byName

end AccessControl.Jwt
