/-! # Why an operation fails

A `Failure` is a cause; its wording is `Failure.message`.  A presented token is
refused for a `Rejection`.  Two rejections mean that the token was genuine and has
been revoked since (`Rejection.isRevocation`); with every other one the token was
never good.
-/
namespace AccessControl

/-- Why a presented token is refused. -/
inductive Rejection where
  /-- The token cannot be decoded. -/
  | malformed (reason : String)
  /-- The signature is not that of the configured key. -/
  | invalidSignature
  /-- The token is past its expiry or before its start. -/
  | expired
  /-- The token was issued by someone else. -/
  | wrongIssuer
  /-- The token was issued for someone else. -/
  | wrongAudience
  /-- The token is of another kind than the one asked for. -/
  | wrongKind (expected actual : String)
  /-- A claim that validation needs is absent or cannot be read. -/
  | missingClaim (name : String)
  /-- The user's security stamp has changed since the token was issued. -/
  | invalidSecurityStamp
  /-- The token's key has no live record. -/
  | invalidTokenKey
  deriving DecidableEq, Repr

namespace Rejection

/-- The wording of a rejection. -/
def message : Rejection → String
  | .malformed reason => "malformed token: " ++ reason
  | .invalidSignature => "invalid token signature"
  | .expired => "token has expired"
  | .wrongIssuer => "wrong token issuer"
  | .wrongAudience => "wrong token audience"
  | .wrongKind expected actual =>
    "wrong token type: expected '" ++ expected ++ "', got '" ++ actual ++ "'"
  | .missingClaim name => "missing token claim '" ++ name ++ "'"
  | .invalidSecurityStamp => "invalid security stamp"
  | .invalidTokenKey => "invalid token key"

/-- Whether the token was genuine and has been revoked. -/
def isRevocation : Rejection → Bool
  | .invalidSecurityStamp => true
  | .invalidTokenKey => true
  | _ => false

end Rejection

/-- Why an operation fails. -/
inductive Failure where
  /-- The input is not valid. -/
  | validation (detail : String)
  /-- What was asked for does not exist. -/
  | notFound (detail : String)
  /-- A write contradicts what is stored. -/
  | conflict (detail : String)
  /-- The user is not authenticated. -/
  | unauthorized (detail : String)
  /-- The presented token is refused. -/
  | rejected (rejection : Rejection)
  /-- The user is authenticated and not allowed. -/
  | forbidden (detail : String)
  /-- Something else went wrong. -/
  | internal (detail : String)
  deriving DecidableEq, Repr

namespace Failure

/-- The wording of a failure. -/
def message : Failure → String
  | .validation detail => "validation error: " ++ detail
  | .notFound detail => "not found: " ++ detail
  | .conflict detail => "conflict: " ++ detail
  | .unauthorized detail => "unauthorized: " ++ detail
  | .rejected rejection => "unauthorized: " ++ rejection.message
  | .forbidden detail => "forbidden: " ++ detail
  | .internal detail => "internal error: " ++ detail

/-- The rejection that a failure carries. -/
def rejection? : Failure → Option Rejection
  | .rejected rejection => some rejection
  | _ => none

end Failure

/-- Fails if a condition holds. -/
def failIf {ε : Type} (c : Prop) [Decidable c] (e : ε) : Except ε Unit :=
  if c then .error e else .ok ()

@[simp] theorem failIf_of {ε : Type} {c : Prop} [Decidable c] {e : ε} (h : c) :
    failIf c e = .error e := if_pos h

@[simp] theorem failIf_of_not {ε : Type} {c : Prop} [Decidable c] {e : ε} (h : ¬c) :
    failIf c e = .ok () := if_neg h

theorem Except.bind_eq_ok_iff {ε α β : Type} {x : Except ε α} {f : α → Except ε β} {b : β} :
    (x >>= f) = .ok b ↔ ∃ a, x = .ok a ∧ f a = .ok b := by
  constructor
  · intro h
    cases x with
    | error e => cases h
    | ok a => exact ⟨a, rfl, h⟩
  · rintro ⟨a, rfl, h⟩
    exact h

theorem Except.pure_eq_ok_iff {ε α : Type} {a b : α} :
    (pure a : Except ε α) = .ok b ↔ a = b := Except.ok.injEq a b ▸ Iff.rfl

theorem failIf_eq_ok_iff {ε : Type} {c : Prop} [Decidable c] {e : ε} {u : Unit} :
    failIf c e = .ok u ↔ ¬c := by
  unfold failIf
  split
  · rename_i h
    exact iff_of_false (fun h => nomatch h) (not_not_intro h)
  · rename_i h
    exact iff_of_true rfl h

end AccessControl
