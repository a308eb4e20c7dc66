import AccessControl.Jwt.Method

/-! # Keys in headers

A header may carry a key.  The service does not use it, but refuses a header whose key has not
the form of one: an object with the parameters that all keys may have, and those that its kind
of key must have.  The kind is the first one whose parameters are all there.
-/
namespace AccessControl.Jwt

/-- How many values may be nested inside the members of a key. -/
def maxNesting : Nat := 125

/-- What a key may be for: a way to sign, or a way to encrypt other keys. -/
def purposes : List (String × Unit) :=
  (Method.byName.map Prod.fst ++ ["RSA1_5", "RSA-OAEP", "RSA-OAEP-256"]).map (·, ())

/-- The parameters that every key may have. -/
def commonParameters : List Json.Field :=
  [.optional "use" Json.readString, .optional "key_ops" (Json.readList Json.readString),
   .optional "alg" (Json.readLooseName purposes), .optional "kid" Json.readString,
   .optional "x5u" Json.readString, .optional "x5c" (Json.readList Json.readString),
   .optional "x5t" Json.readString, .optional "x5t#S256" Json.readString]

/-- The kind of a key, which is given by one name. -/
def kindParameter (name : String) : Json.Field := .required "kty" (Json.readName [(name, ())])

/-- The curve of a key. -/
def curveParameter : Json.Field :=
  .required "crv"
    (Json.readName [("P-256", ()), ("P-384", ()), ("P-521", ()), ("Ed25519", ())])

/-- The parameters of each kind of key. -/
def kindsOfKeys : List (List Json.Field) :=
  [[kindParameter "EC", curveParameter, .required "x" Json.readString,
    .required "y" Json.readString],
   [kindParameter "RSA", .required "n" Json.readString, .required "e" Json.readString],
   [kindParameter "oct", .required "k" Json.readString],
   [kindParameter "OKP", curveParameter, .required "x" Json.readString]]

/-- Whether a member of a key is a parameter that every key may have. -/
def isCommon (member : Option String × Reading) : Bool :=
  commonParameters.any (fun field => member.1 == some field.name)

/-- Reads a key and keeps nothing of it. -/
def readPublicKey : Json.Reader Unit
  | .obj members closed =>
    if Reading.areMembersSound maxNesting members && closed then do
      let (common, special) := members.partition isCommon
      let _ ← Json.readRecord commonParameters (.obj common true)
      let fits := kindsOfKeys.any fun fields =>
        (Json.readRecord fields (.obj special true)).isOk
      if fits then .ok () else .error .mismatched
    else .error .malformed
  | v => .error (Json.unfit v)

end AccessControl.Jwt
