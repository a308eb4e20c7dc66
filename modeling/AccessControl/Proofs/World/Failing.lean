import AccessControl.Proofs.World.Unreliable

/-! # An outside that fails at chosen requests

Which requests fail, and how, is a parameter (`faults`).  A request that fails is not done; any
other is done as the world does it.  So a program has exactly one run from a world
(`World.yields_of_ensures_failing`), and what it ensures is computed request by request
(`World.ensures_failing`), with the exchanges kept.
-/
namespace AccessControl.World
open Outside

/-- The answer to a request, and the world after it, where some requests fail.  The clock, the
source of identifiers and the verifier have no way to fail. -/
def answerBut (faults : Backend.Request → Option Failure) (r : Backend.Request) :
    Step (Backend.Answer r) := fun w =>
  match (faults r).bind (Trial.failed · r) with
  | some a => (a, w)
  | none => World.answer r w

/-- The outside where some requests fail and are not done. -/
def failing (faults : Backend.Request → Option Failure) : Outside Backend World :=
  ⟨fun r w a w' => (a, w') = answerBut faults r w⟩

variable {faults : Backend.Request → Option Failure} {α : Type}

theorem answerBut_of_none {r : Backend.Request} (h : faults r = none) :
    answerBut faults r = World.answer r := by
  funext w
  rw [answerBut, h]
  rfl

theorem answerBut_of_some {r : Backend.Request} {failure : Failure} {a : Backend.Answer r}
    (h : faults r = some failure) (ha : Trial.failed failure r = some a) (w : World) :
    answerBut faults r w = (a, w) := by
  rw [answerBut, h, Option.bind_some, ha]

/-- A program has a run, whichever requests fail. -/
theorem exists_run_failing (p : Program Backend α) (w : World) :
    ∃ t a w', p.Transcript t a ∧ (failing faults).Follows w t w' := by
  induction p generalizing w with
  | done a => exact ⟨[], a, w, .done a, .nil w⟩
  | call r next ih =>
    obtain ⟨t, a, w', ht, hf⟩ := ih (answerBut faults r w).1 (answerBut faults r w).2
    exact ⟨_, a, w', .call ht, .cons rfl hf⟩

/-- **What is ensured of the runs of a program is ensured of a run that there is.** -/
theorem yields_of_ensures_failing {p : Program Backend α} {w : World}
    {log : List (Exchange Backend)} {Q : α → World × List (Exchange Backend) → Prop}
    (h : (failing faults).logged.Ensures p (w, log) Q) :
    (failing faults).logged.Yields p (w, log) Q := by
  obtain ⟨t, a, w', ht, hf⟩ := exists_run_failing p w
  exact ⟨h, t, a, _, ht, hf.logged log⟩

/-- **A request gets its one answer**, and is kept with it. -/
theorem ensures_failing {r : Backend.Request} {w : World} {log : List (Exchange Backend)}
    {Q : Backend.Answer r → World × List (Exchange Backend) → Prop}
    (h : Q (answerBut faults r w).1
      ((answerBut faults r w).2, log ++ [⟨r, (answerBut faults r w).1⟩])) :
    (failing faults).logged.Ensures (Program.request (I := Backend) r) (w, log) Q := by
  rw [ensures_request]
  rintro a ⟨w', log'⟩ ⟨hanswer, rfl⟩
  obtain ⟨rfl, rfl⟩ := Prod.mk.inj hanswer
  exact h

end AccessControl.World
