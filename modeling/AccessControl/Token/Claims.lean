import AccessControl.Identity
import AccessControl.Token.Kind

/-! # What a token says

The claims of a token are texts and times.  What validation needs from the texts is
read from them here; a claim that is absent or cannot be read is reported by its name.
-/
namespace AccessControl.Token

/-- The claims of a token. -/
structure Claims where
  /-- The number of the user, in decimal. -/
  subject : String
  issuer : String
  audience : String
  /-- When the token was issued, in seconds since the start of 1970. -/
  issuedAt : Int64
  /-- From when on the token holds. -/
  notBefore : Int64
  /-- Until when the token holds. -/
  expiresAt : Int64
  tokenId : String
  /-- The user's security stamp when the token was issued. -/
  stamp? : Option String
  /-- The key of the token's record. -/
  key? : Option String
  /-- The name of the token's kind. -/
  kind? : Option String
  /-- The key of the refresh token that an access token was issued with. -/
  refreshKey? : Option String
  deriving DecidableEq, Repr

namespace Claims

/-- The user that the token was issued for. -/
def userId (c : Claims) : Except Rejection UserId :=
  match UserId.ofText c.subject with
  | .ok id => .ok id
  | .error _ => .error (.missingClaim "sub")

/-- The kind of the token. -/
def kind (c : Claims) : Except Rejection Kind :=
  match c.kind?.bind Kind.ofName? with
  | some kind => .ok kind
  | none => .error (.missingClaim "token_type")

/-- The stamp in the token. -/
def stamp (c : Claims) : Except Rejection SecurityStamp :=
  match c.stamp?.bind (fun s => (SecurityStamp.ofText s).toOption) with
  | some stamp => .ok stamp
  | none => .error (.missingClaim "security_stamp")

/-- The key of the token's record. -/
def key (c : Claims) : Except Rejection TokenKey :=
  match c.key?.bind Uuid.ofText? with
  | some uuid => .ok ⟨uuid⟩
  | none => .error (.missingClaim "token_validity_key")

/-- The key of the linked refresh token, if there is one that can be read. -/
def refreshKey (c : Claims) : Option TokenKey := (c.refreshKey?.bind Uuid.ofText?).map TokenKey.mk

/-- The member for a claim that may be absent. -/
def optionalMember (name : String) : Option String → List (String × Json)
  | some s => [(name, .str s)]
  | none => []

/-- The fields of the written form. -/
def fields : List Json.Field :=
  [.required "sub" Json.readString, .required "iss" Json.readString,
   .required "aud" Json.readString, .required "iat" Json.readInt64,
   .required "nbf" Json.readInt64, .required "exp" Json.readInt64,
   .required "jti" Json.readString, .optional "security_stamp" Json.readString,
   .optional "token_validity_key" Json.readString, .optional "token_type" Json.readString,
   .optional "refresh_token_validity_key" Json.readString]

/-- The members of the written form; absent claims are left out. -/
def members (c : Claims) : List (String × Json) :=
  [("sub", .str c.subject), ("iss", .str c.issuer), ("aud", .str c.audience),
   ("iat", .int c.issuedAt.toInt), ("nbf", .int c.notBefore.toInt),
   ("exp", .int c.expiresAt.toInt), ("jti", .str c.tokenId)] ++
  optionalMember "security_stamp" c.stamp? ++
  optionalMember "token_validity_key" c.key? ++
  optionalMember "token_type" c.kind? ++
  optionalMember "refresh_token_validity_key" c.refreshKey?

instance : Json.Form Claims where
  toJson c := .obj c.members
  read v := do
    let found ← Json.readRecord fields v
    return {
      subject := ← found.get "sub" Json.readString
      issuer := ← found.get "iss" Json.readString
      audience := ← found.get "aud" Json.readString
      issuedAt := ← found.get "iat" Json.readInt64
      notBefore := ← found.get "nbf" Json.readInt64
      expiresAt := ← found.get "exp" Json.readInt64
      tokenId := ← found.get "jti" Json.readString
      stamp? := ← found.get? "security_stamp" Json.readString
      key? := ← found.get? "token_validity_key" Json.readString
      kind? := ← found.get? "token_type" Json.readString
      refreshKey? := ← found.get? "refresh_token_validity_key" Json.readString }

end Claims
end AccessControl.Token
