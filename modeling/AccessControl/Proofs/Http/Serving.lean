import AccessControl.Http.Server
import AccessControl.Proofs.Program.Service

/-! # How requests are served

The server leaves open how programs are run.  Here they are answered by an outside, and each may be
given up before its end (`Outside.attempt`).  So serving a request is a relation (`Served`): from a
state, by some exchanges, it comes to an answer, which may be missing, and to a state.

A request on a protected path is served in one of three ways (`Guarded`): the validation of the
token that it brings is given up, it fails, or it succeeds and an endpoint is run for the token's
user.
-/
namespace AccessControl

/-- **What may come of something**: from a state, by some exchanges, a value and a state. -/
def Attempt (I : Interface) (σ α : Type) : Type := σ → List (Exchange I) → α → σ → Prop

instance {I : Interface} {σ : Type} : Monad (Attempt I σ) where
  pure a := fun s t b s' => t = [] ∧ b = a ∧ s' = s
  bind x f := fun s t b s' => ∃ t₁ a m t₂, t = t₁ ++ t₂ ∧ x s t₁ a m ∧ f a m t₂ b s'

namespace Attempt
variable {I : Interface} {σ α β : Type} {s s' : σ} {t : List (Exchange I)}

theorem bind_iff {x : Attempt I σ α} {f : α → Attempt I σ β} {b : β} :
    (x >>= f) s t b s' ↔ ∃ t₁ a m t₂, t = t₁ ++ t₂ ∧ x s t₁ a m ∧ f a m t₂ b s' := .rfl

end Attempt

namespace Outside
variable {I : Interface} {σ α : Type} (O : Outside I σ)

/-- **Runs a program to its end, or gives it up before.**  The answers to what it has asked for by
then need not have reached it. -/
def attempt (p : Program I α) : Attempt I σ (Option α) := fun s t a? s' =>
  O.Follows s t s' ∧
    match a? with
    | some a => p.Transcript t a
    | none => p.Begins t

variable {O} {p : Program I α} {s s' : σ} {t : List (Exchange I)} {a? : Option α}

theorem begins_of_attempt (h : O.attempt p s t a? s') : p.Begins t := by
  obtain ⟨-, h⟩ := h
  cases a? with
  | none => exact h
  | some a =>
    have hend : p.Transcript t a := h
    exact hend.begins

end Outside

namespace Http
open Program Outside
variable {σ : Type} (d : Deployment) (site : String) (O : Outside Backend σ)

/-- **What may come of a request**: an answer, or none if what serves it is given up. -/
def Served (r : Request) : Attempt Backend σ (Option Response) := serve d site O.attempt r

/-- A request with a token is served in one of three ways. -/
inductive Guarded (token : String) (next : Token.Validated → Endpoint) (s : σ) :
    List (Exchange Backend) → Option Response → σ → Prop where
  /-- The validation is given up. -/
  | stalled {t : List (Exchange Backend)} {s' : σ}
    (h : (Session.validate d token .access).run.Begins t) (hf : O.Follows s t s') :
    Guarded token next s t (some timedOut) s'
  /-- The validation fails. -/
  | refused {t : List (Exchange Backend)} {failure : Failure} {s' : σ}
    (h : (Session.validate d token .access).run.Transcript t (.error failure))
    (hf : O.Follows s t s') : Guarded token next s t (some (failureResponse failure)) s'
  /-- The token is valid. -/
  | admitted {t₁ t₂ : List (Exchange Backend)} {validated : Token.Validated}
    {answer : Option Response} {m s' : σ}
    (h : (Session.validate d token .access).run.Transcript t₁ (.ok validated))
    (hf : O.Follows s t₁ m) (hnext : O.attempt (next validated) m t₂ answer s') :
    Guarded token next s (t₁ ++ t₂) answer s'

variable {d site O} {r : Request} {s s' : σ} {t : List (Exchange Backend)}
  {answer : Option Response}

/-- What comes of a request comes of its plan; only headers are put to the response, and its body
may be left away. -/
theorem served_iff : Served d site O r s t answer s' ↔
    ∃ planned, (plan d r).carryOut d O.attempt s t planned s' ∧
      answer = planned.map (forSite site r) := by
  rw [Served, serve, Attempt.bind_iff]
  constructor
  · rintro ⟨t₁, planned, m, t₂, rfl, h, rfl, rfl, rfl⟩
    exact ⟨planned, by rwa [List.append_nil], rfl⟩
  · rintro ⟨planned, h, rfl⟩
    exact ⟨t, planned, s', [], (List.append_nil t).symm, h, rfl, rfl, rfl⟩

theorem carryOut_guarded_iff {token : String} {next : Token.Validated → Endpoint} :
    (Plan.guarded token next).carryOut d O.attempt s t answer s' ↔
      Guarded d O token next s t answer s' := by
  rw [Plan.carryOut, Attempt.bind_iff]
  constructor
  · rintro ⟨t₁, ended, m, t₂, rfl, ⟨hf, h⟩, hnext⟩
    match ended with
    | none =>
      obtain ⟨rfl, rfl, rfl⟩ := hnext
      rw [List.append_nil]
      exact .stalled h hf
    | some (.error failure) =>
      obtain ⟨rfl, rfl, rfl⟩ := hnext
      rw [List.append_nil]
      exact .refused h hf
    | some (.ok validated) => exact .admitted h hf hnext
  · intro h
    cases h with
    | stalled h hf => exact ⟨t, none, s', [], (List.append_nil t).symm, ⟨hf, h⟩, rfl, rfl, rfl⟩
    | @refused t failure s' h hf =>
      exact ⟨t, some (.error failure), s', [], (List.append_nil t).symm, ⟨hf, h⟩, rfl, rfl, rfl⟩
    | @admitted t₁ t₂ validated answer m s' h hf hnext =>
      exact ⟨t₁, some (.ok validated), m, t₂, rfl, ⟨hf, h⟩, hnext⟩

theorem status_forSite (response : Response) :
    (forSite site r response).status = response.status := by
  show (trimBody r response).status = response.status
  rw [trimBody]
  split <;> rfl

end Http
end AccessControl
