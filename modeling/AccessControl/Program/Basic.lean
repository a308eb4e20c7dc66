/-! # Programs

A program is a value: it is finished with a result, or it makes one request and goes on
with the answer.  What a request may be, and what answers it may have, is given by an
`Interface`.  A program does nothing by itself.  It is run by saying how each request is
answered (`interpret`), so that the same program can be run on stores in memory, on
stores that fail, or step by step among other programs.
-/
namespace AccessControl

/-- The requests that programs may make, and the type of the answers to each. -/
structure Interface where
  Request : Type
  Answer : Request → Type

/-- A program that makes requests one after the other. -/
inductive Program (I : Interface) (α : Type) where
  /-- The program has finished. -/
  | done (a : α)
  /-- The program waits for the answer to a request. -/
  | call (r : I.Request) (next : I.Answer r → Program I α)

namespace Program
variable {I : Interface} {α β : Type}

/-- Runs a program and goes on with its result. -/
def bind : Program I α → (α → Program I β) → Program I β
  | done a, f => f a
  | call r next, f => call r (fun answer => (next answer).bind f)

instance : Monad (Program I) where
  pure := done
  bind := bind

/-- The program that makes one request. -/
def request (r : I.Request) : Program I (I.Answer r) := call r done

@[simp] theorem pure_eq (a : α) : (pure a : Program I α) = done a := rfl
@[simp] theorem done_bind (a : α) (f : α → Program I β) : done a >>= f = f a := rfl
@[simp] theorem call_bind (r : I.Request) (next : I.Answer r → Program I α)
    (f : α → Program I β) : call r next >>= f = call r (fun answer => next answer >>= f) := rfl

theorem bind_done (p : Program I α) : p >>= done = p := by
  induction p with
  | done a => rfl
  | call r next ih => exact congrArg (call r) (funext ih)

theorem bind_assoc {γ : Type} (p : Program I α) (f : α → Program I β) (g : β → Program I γ) :
    p >>= f >>= g = p >>= fun a => f a >>= g := by
  induction p with
  | done a => rfl
  | call r next ih => exact congrArg (call r) (funext ih)

instance : LawfulMonad (Program I) :=
  LawfulMonad.mk' (Program I) (fun p => bind_done p)
    (fun _ _ => rfl) bind_assoc

/-! ## Running -/

/-- Runs a program where each request is answered as `answer` says. -/
def interpret {m : Type → Type} [Monad m] (answer : (r : I.Request) → m (I.Answer r)) :
    Program I α → m α
  | done a => pure a
  | call r next => answer r >>= fun a => (next a).interpret answer

theorem interpret_bind {m : Type → Type} [Monad m] [LawfulMonad m]
    (answer : (r : I.Request) → m (I.Answer r)) (p : Program I α) (f : α → Program I β) :
    (p >>= f).interpret answer = p.interpret answer >>= fun a => (f a).interpret answer := by
  induction p with
  | done a => simp [interpret]
  | call r next ih => simp [interpret, ih]

end Program
end AccessControl
