import AccessControl.Digest.Hmac
import AccessControl.Instant
import AccessControl.Jwt.Header
import AccessControl.Text.Base64Url
import AccessControl.Text.Utf8
import AccessControl.Token.Claims

/-! # Signed tokens

A signed token is three parts with dots between: the header, the claims and the
signature, each in base 64.  The signature is the keyed hash of everything before its dot.
A token is verified in a fixed order (`Signer.verify`), and the first problem found is
the one reported.  No time is allowed for clocks that differ.
-/
namespace AccessControl.Jwt

/-- What a token cannot be decoded for. -/
inductive Defect where
  /-- The text has fewer than three parts. -/
  | parts
  /-- A part is not in base 64. -/
  | base64
  /-- The header or the claims cannot be read. -/
  | json
  /-- The header names another way to sign. -/
  | method
  /-- A time that must be there is negative. -/
  | time
  deriving DecidableEq, Repr

/-- The wording of a defect. -/
def Defect.message : Defect → String
  | .parts => "InvalidToken"
  | .base64 => "Base64 error"
  | .json => "JSON error"
  | .method => "InvalidAlgorithm"
  | .time => "Missing required claim"

/-- The rejection for a defect. -/
def Defect.rejection (defect : Defect) : Rejection := .malformed defect.message

/-- Signs and verifies tokens with one secret, for one issuer and one audience. -/
structure Signer where
  secret : List UInt8
  /-- The issuer that a token must name. -/
  issuer : String
  /-- The audience that a token must name. -/
  audience : String
  deriving DecidableEq

/-- The smallest number of octets of a secret. -/
def minSecretLength : Nat := 32

namespace Signer

/-- Checks the length of the secret. -/
def new (secret issuer audience : String) : Except Failure Signer :=
  let octets := Utf8.encode secret.toList
  if octets.length < minSecretLength then
    .error (.validation ("JWT secret must be at least " ++ Decimal.text minSecretLength ++
      " characters"))
  else .ok ⟨octets, issuer, audience⟩

/-- A text as a part of a token. -/
def part (cs : List Char) : List Char := Base64Url.encode (Utf8.encode cs)

/-- The signature of the parts before it. -/
def signature (s : Signer) (message : List Char) : List Char :=
  Base64Url.encode (Hmac.sha256 s.secret (Utf8.encode message))

/-- The header and the claims, which are what is signed. -/
def message (claims : Token.Claims) : List Char :=
  part header.chars ++ '.' :: part (Json.Form.toJson claims).chars

/-- Signs claims. -/
def sign (s : Signer) (claims : Token.Claims) : String :=
  String.ofList (message claims ++ '.' :: s.signature (message claims))

/-- What stands before and after the last dot. -/
def splitLast? (cs : List Char) : Option (List Char × List Char) :=
  match cs.reverse.dropWhile (· ≠ '.') with
  | [] => none
  | _ :: before => some (before.reverse, (cs.reverse.takeWhile (· ≠ '.')).reverse)

/-- Decodes a part and reads it as JSON. -/
def readPart {α : Type} (read : Json.Reader α) (cs : List Char) : Except Defect α :=
  match Base64Url.decode? cs with
  | none => .error .base64
  | some octets =>
    match Json.ofSource read (Utf8.symbols octets) with
    | .ok a => .ok a
    | .error _ => .error .json

/-- Reads claims, which must be written with their names. -/
def readClaims : Json.Reader Token.Claims
  | .arr _ _ => .error .mismatched
  | v => Json.Form.read v

/-- Checks the times, the issuer and the audience of claims. -/
def checkClaims (s : Signer) (now : Instant) (claims : Token.Claims) : Except Rejection Unit :=
  if claims.expiresAt < 0 ∨ claims.notBefore < 0 then .error (Defect.time.rejection)
  else if claims.expiresAt < now.seconds then .error .expired
  else if now.seconds < claims.notBefore then .error .expired
  else if claims.issuer ≠ s.issuer then .error .wrongIssuer
  else if claims.audience ≠ s.audience then .error .wrongAudience
  else .ok ()

/-- A defect as the end of a verification. -/
def refusing {α : Type} (decoded : Except Defect α) : Except Rejection α :=
  decoded.mapError Defect.rejection

/-- Verifies a token at an instant and gives its claims. -/
def verify (s : Signer) (now : Instant) (token : String) : Except Rejection Token.Claims :=
  match splitLast? token.toList with
  | none => .error Defect.parts.rejection
  | some (message, signature) =>
    match splitLast? message with
    | none => .error Defect.parts.rejection
    | some (header, payload) => do
      let method ← refusing (readPart readHeader header)
      failIf (method ≠ .hs256) Defect.method.rejection
      failIf (signature ≠ s.signature message) .invalidSignature
      let claims ← refusing (readPart readClaims payload)
      s.checkClaims now claims
      return claims

end Signer
end AccessControl.Jwt
