import AccessControl.Failure
import AccessControl.Json.Record

/-! # Kinds of token

Access tokens are presented with every request; a refresh token is only exchanged
for new access tokens.
-/
namespace AccessControl.Token

/-- What a token is for. -/
inductive Kind where
  /-- Presented with every request. -/
  | access
  /-- Exchanged for new access tokens. -/
  | refresh
  deriving DecidableEq, Repr

namespace Kind

/-- The name of a kind. -/
def name : Kind → String
  | .access => "access"
  | .refresh => "refresh"

/-- The kinds by name. -/
def byName : List (String × Kind) := [("access", .access), ("refresh", .refresh)]

/-- The kind of a name. -/
def ofName? (s : String) : Option Kind := byName.lookup s

/-- Reads the name of a kind. -/
def ofText (s : String) : Except Failure Kind :=
  match ofName? s with
  | some kind => .ok kind
  | none => .error (.validation ("unknown token type '" ++ s ++ "'"))

instance : Json.Form Kind := ⟨fun k => .str k.name, Json.readName byName⟩

end Kind
end AccessControl.Token
