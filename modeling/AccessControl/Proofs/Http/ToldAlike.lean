import AccessControl.Http.Payload
import AccessControl.Proofs.Program.InStep
import AccessControl.Proofs.Program.Service

/-! # What clients can tell apart

A client sees of a failure the response for it and nothing else.  Two failures with one response
are told alike (`Http.ToldAlike`): all internal failures are, whatever their wording.

A program that may fail is discreet (`Http.Discreet`) if, run twice and answered in related ways, it
makes the same requests and either has the same result in both runs or fails in both with failures
that are told alike.  A step that keeps the failure of another one for later
(`Backend.outcome`) has a failure as its result, so two runs of it have results that are only told
alike; the relation between two programs (`Http.Indistinct`) therefore leaves open how results are
related.
-/
namespace AccessControl

namespace Http
open Program

/-- A client is told the same of two failures. -/
def ToldAlike (f f' : Failure) : Prop := failureResponse f = failureResponse f'

/-- **The wording of an internal failure is not told.** -/
theorem toldAlike_internal (detail detail' : String) :
    ToldAlike (.internal detail) (.internal detail') := rfl

/-- **Two ends that a client cannot tell apart** but by their results, which are related. -/
inductive EndAlike {α : Type} (R : α → α → Prop) : Except Failure α → Except Failure α → Prop where
  | ok {a b : α} (h : R a b) : EndAlike R (.ok a) (.ok b)
  | error {f f' : Failure} (h : ToldAlike f f') : EndAlike R (.error f) (.error f')

theorem endAlike_refl {α : Type} (a : Except Failure α) : EndAlike Eq a a := by
  cases a with
  | ok a => exact .ok rfl
  | error f => exact .error rfl

/-! ## Programs that may fail -/

section
variable {I : Interface} {α β : Type} {E : (r : I.Request) → I.Answer r → I.Answer r → Prop}
  {R : α → α → Prop} {S : β → β → Prop} {x y : ExceptT Failure (Program I) α}

/-- **Two programs make the same requests and end alike**, as long as the answers are related. -/
def Indistinct (E : (r : I.Request) → I.Answer r → I.Answer r → Prop) (R : α → α → Prop)
    (x y : ExceptT Failure (Program I) α) : Prop := InStep E (EndAlike R) x.run y.run

/-- **What is different in the answers reaches no client**, neither by the result of a program nor
by its failure. -/
def Discreet (E : (r : I.Request) → I.Answer r → I.Answer r → Prop)
    (x : ExceptT Failure (Program I) α) : Prop := Indistinct E Eq x x

theorem indistinct_pure {a b : α} (h : R a b) :
    Indistinct E R (pure a : ExceptT Failure (Program I) α) (pure b) := .done (.ok h)

theorem indistinct_throw {f f' : Failure} (h : ToldAlike f f') :
    Indistinct E R (throw f : ExceptT Failure (Program I) α) (throw f') := .done (.error h)

theorem Indistinct.bind {f g : α → ExceptT Failure (Program I) β} (h : Indistinct E R x y)
    (hfg : ∀ a b, R a b → Indistinct E S (f a) (g b)) : Indistinct E S (x >>= f) (y >>= g) := by
  rw [Indistinct, ExceptT.run_bind, ExceptT.run_bind]
  refine InStep.bind h fun a b hab => ?_
  cases hab with
  | ok hab => exact hfg _ _ hab
  | error htold => exact .done (.error htold)

theorem Indistinct.lift {p q : Program I α} (h : InStep E R p q) :
    Indistinct E R (liftM p : ExceptT Failure (Program I) α) (liftM q) := by
  show InStep E (EndAlike R) (p >>= fun a => done (Except.ok a)) (q >>= fun a => done (Except.ok a))
  exact h.bind fun a b hab => .done (.ok hab)

theorem discreet_pure (a : α) : Discreet E (pure a : ExceptT Failure (Program I) α) :=
  indistinct_pure rfl

theorem discreet_throw (f : Failure) : Discreet E (throw f : ExceptT Failure (Program I) α) :=
  indistinct_throw rfl

theorem discreet_check (check : Except Failure α) :
    Discreet E (liftM check : ExceptT Failure (Program I) α) := .done (endAlike_refl check)

theorem Discreet.bind {f : α → ExceptT Failure (Program I) β} (h : Discreet E x)
    (hf : ∀ a, Discreet E (f a)) : Discreet E (x >>= f) := by
  refine Indistinct.bind h fun a b hab => ?_
  rw [← hab]
  exact hf a

end

/-! ## Steps of services -/

section
variable {α β : Type} {E : (r : Backend.Request) → Backend.Answer r → Backend.Answer r → Prop}
  {R : α → α → Prop} {x y : Service α}

theorem Indistinct.outcome (h : Indistinct E R x y) :
    Indistinct (I := Backend) E (EndAlike R) (Backend.outcome x) (Backend.outcome y) :=
  Indistinct.lift h

theorem indistinct_conclude {ended ended' : Except Failure α} (h : EndAlike R ended ended') :
    Indistinct (I := Backend) E R (Backend.conclude ended) (Backend.conclude ended') := .done h

end

end Http

namespace Backend.Answer
open Http

/-- **Answers to a request that are alike to clients**: what a store is asked for may fail with
failures that are told alike, and everything else is answered the same. -/
def Alike : (r : Request) → Answer r → Answer r → Prop
  | .findRole _, a, b | .roleGrants _, a, b | .userGrants _, a, b | .userRoles _, a, b
  | .createRole _, a, b | .updateRole _ _, a, b | .replaceRoleGrants _ _, a, b
  | .deleteRole _, a, b | .replaceUserGrants _ _, a, b | .replaceUserRoles _ _, a, b
  | .createToken _, a, b | .isTokenLive _ _ _, a, b | .deleteToken _ _, a, b
  | .deleteTokens _, a, b | .findStamp _, a, b | .updateStamp _ _, a, b => EndAlike Eq a b
  | .cacheGet _, a, b | .cacheSet _ _ _, a, b | .cacheDelete _, a, b | .sign _, a, b
  | .verify _, a, b | .now, a, b | .fresh, a, b => a = b

theorem alike_refl (r : Request) (a : Answer r) : Alike r a a := by
  cases r <;> first | exact endAlike_refl a | rfl

end Backend.Answer
end AccessControl
