import AccessControl.Proofs.Program.Transcript

/-! # Programs that keep in step

A program is run twice, and the two runs are not answered in quite the same way.  What may be
different is given by a relation `E` between the answers to one request.  `Program.InStep E R p q`
says that as long as the answers are related the two programs `p` and `q` make the same requests,
and that they end in results that are related by `R`.

So nothing of what is different in the answers can be seen in the requests.  If each request is
answered in both runs so that the answers are related and the same state is left, then both runs
leave the same state (`Program.InStep.interpret`).  This holds wherever programs may be run and
related steps follow one another, which a `Comparison` of steps provides.
-/
namespace AccessControl

/-! ## Steps that are compared -/

/-- **How steps are compared**, given how their results are: nothing but results tells apart steps
that do nothing, and what follows related results goes on as it began. -/
structure Comparison (m : Type → Type) [Monad m] where
  Holds : {α : Type} → (α → α → Prop) → m α → m α → Prop
  pure : ∀ {α : Type} {R : α → α → Prop} {a b : α}, R a b → Holds R (Pure.pure a) (Pure.pure b)
  bind : ∀ {α β : Type} {R : α → α → Prop} {S : β → β → Prop} {x y : m α} {f g : α → m β},
    Holds R x y → (∀ a b, R a b → Holds S (f a) (g b)) → Holds S (x >>= f) (y >>= g)

namespace Comparison

/-- From any state both steps lead to the same state. -/
def state (σ : Type) : Comparison (StateM σ) where
  Holds R x y := ∀ s, R (x s).1 (y s).1 ∧ (x s).2 = (y s).2
  pure h _ := ⟨h, rfl⟩
  bind {α β R S x y f g} hxy hfg s := by
    obtain ⟨hresult, hstate⟩ := hxy s
    show S (f (x s).1 (x s).2).1 (g (y s).1 (y s).2).1 ∧
      (f (x s).1 (x s).2).2 = (g (y s).1 (y s).2).2
    rw [← hstate]
    exact hfg _ _ hresult (x s).2

/-- From any state both steps lead to the same state, and both or neither come to a result. -/
def stalling (σ : Type) : Comparison (OptionT (StateM σ)) where
  Holds R x y := (state σ).Holds (Option.Rel R) x.run y.run
  pure h := (state σ).pure (.some h)
  bind {α β R S x y f g} hxy hfg := by
    rw [OptionT.run_bind, OptionT.run_bind]
    refine (state σ).bind hxy fun a? b? h => ?_
    cases h with
    | none => exact (state σ).pure Option.Rel.none
    | some h => exact hfg _ _ h

end Comparison

/-! ## Programs in step -/

namespace Program
variable {I : Interface} {α β : Type} {E : (r : I.Request) → I.Answer r → I.Answer r → Prop}
  {R R' : α → α → Prop} {S : β → β → Prop} {p q : Program I α}

/-- **Two programs make the same requests as long as the answers to them are related**, and end in
related results. -/
inductive InStep (E : (r : I.Request) → I.Answer r → I.Answer r → Prop) (R : α → α → Prop) :
    Program I α → Program I α → Prop where
  | done {a b : α} (h : R a b) : InStep E R (.done a) (.done b)
  | call {r : I.Request} {next next' : I.Answer r → Program I α}
    (h : ∀ x y, E r x y → InStep E R (next x) (next' y)) :
    InStep E R (.call r next) (.call r next')

theorem InStep.mono (h : InStep E R p q) (hR : ∀ a b, R a b → R' a b) : InStep E R' p q := by
  induction h with
  | done h => exact .done (hR _ _ h)
  | call _ ih => exact .call ih

theorem inStep_request {r : I.Request} {R : I.Answer r → I.Answer r → Prop}
    (h : ∀ x y, E r x y → R x y) : InStep E R (request r) (request r) :=
  .call fun x y hxy => .done (h x y hxy)

/-- Programs in step go on in step. -/
theorem InStep.bind {f g : α → Program I β} (h : InStep E R p q)
    (hfg : ∀ a b, R a b → InStep E S (f a) (g b)) : InStep E S (p >>= f) (q >>= g) := by
  induction h with
  | done h => exact hfg _ _ h
  | call _ ih => exact .call ih

/-- **Programs in step are run alike**, wherever the answers that they get are related. -/
theorem InStep.interpret {m : Type → Type} [Monad m] (C : Comparison m)
    {answer answer' : (r : I.Request) → m (I.Answer r)}
    (hanswer : ∀ r, C.Holds (E r) (answer r) (answer' r)) (h : InStep E R p q) :
    C.Holds R (p.interpret answer) (q.interpret answer') := by
  induction h with
  | done h => exact C.pure h
  | call _ ih => exact C.bind (hanswer _) ih

end Program
end AccessControl
