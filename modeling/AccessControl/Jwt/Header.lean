import AccessControl.Jwt.PublicKey

/-! # Headers of signed tokens

The header of a token says how it was signed.  The service signs with one method only;
a header that names another known method, or none, is told apart from one that cannot be
read.
-/
namespace AccessControl.Jwt

/-- The fields of a header. -/
def headerFields : List Json.Field :=
  [.nullable "typ" Json.readString, .required "alg" Method.read,
   .nullable "cty" Json.readString, .nullable "jku" Json.readString,
   .nullable "jwk" readPublicKey, .nullable "kid" Json.readString,
   .nullable "x5u" Json.readString, .nullable "x5c" (Json.readList Json.readString),
   .nullable "x5t" Json.readString, .nullable "x5t#S256" Json.readString]

/-- Reads a header and gives the method that it names. -/
def readHeader : Json.Reader Method := fun v => do
  let found ← Json.readRecord headerFields v
  found.get "alg" Method.read

/-- The header of every token that the service signs. -/
def header : Json := .obj [("typ", .str "JWT"), ("alg", .str "HS256")]

end AccessControl.Jwt
