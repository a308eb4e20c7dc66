import AccessControl.Proofs.Program.Interleaving
import AccessControl.Proofs.World.Unreliable

/-! # Schedules

A schedule says whose request is answered next.  It makes an interleaving of two given
programs on a given world.
-/
namespace AccessControl.World
open Outside Program
variable {α β : Type}

/-- Has the requests of two programs answered as a schedule has it, which says whose request
is the next; it ends where that program has finished. -/
def weave : List Caller → Program Backend α → Program Backend β → World →
    List (Caller × Exchange Backend) × Program Backend α × Program Backend β × World
  | .first :: schedule, .call r next, q, w =>
    let (t, rest) := weave schedule (next (World.answer r w).1) q (World.answer r w).2
    ((.first, ⟨r, (World.answer r w).1⟩) :: t, rest)
  | .second :: schedule, p, .call r next, w =>
    let (t, rest) := weave schedule p (next (World.answer r w).1) (World.answer r w).2
    ((.second, ⟨r, (World.answer r w).1⟩) :: t, rest)
  | _, p, q, w => ([], p, q, w)

/-- **What a program has exchanged is what brought it to where it is**, whichever of the two it is:
an exchange of the other one leaves it where it was. -/
theorem transcript_weave (schedule : List Caller) (p : Program Backend α) (q : Program Backend β)
    (w : World) :
    (∀ {rest : List (Exchange Backend)} {a : α}, (weave schedule p q w).2.1.Transcript rest a →
      p.Transcript (part .first (weave schedule p q w).1 ++ rest) a) ∧
    ∀ {rest : List (Exchange Backend)} {b : β}, (weave schedule p q w).2.2.1.Transcript rest b →
      q.Transcript (part .second (weave schedule p q w).1 ++ rest) b := by
  induction schedule generalizing p q w with
  | nil => exact ⟨id, id⟩
  | cons caller schedule ih =>
    cases caller with
    | first =>
      cases p with
      | done a => exact ⟨id, id⟩
      | call r next =>
        obtain ⟨hfirst, hsecond⟩ := ih (next (World.answer r w).1) q (World.answer r w).2
        exact ⟨fun h => .call (hfirst h), hsecond⟩
    | second =>
      cases q with
      | done b => exact ⟨id, id⟩
      | call r next =>
        obtain ⟨hfirst, hsecond⟩ := ih p (next (World.answer r w).1) (World.answer r w).2
        exact ⟨hfirst, fun h => .call (hsecond h)⟩

theorem transcript_first_of_done {schedule : List Caller} {p : Program Backend α}
    {q : Program Backend β} {w : World} {a : α} (h : (weave schedule p q w).2.1 = .done a) :
    p.Transcript (part .first (weave schedule p q w).1) a := by
  have hwoven := (transcript_weave schedule p q w).1 (h ▸ Transcript.done a)
  rwa [List.append_nil] at hwoven

theorem transcript_second_of_done {schedule : List Caller} {p : Program Backend α}
    {q : Program Backend β} {w : World} {b : β} (h : (weave schedule p q w).2.2.1 = .done b) :
    q.Transcript (part .second (weave schedule p q w).1) b := by
  have hwoven := (transcript_weave schedule p q w).2 (h ▸ Transcript.done b)
  rwa [List.append_nil] at hwoven

/-- **What is woven is followed by every outside whose cache may be unreliable.** -/
theorem follows_weave (schedule : List Caller) (p : Program Backend α) (q : Program Backend β)
    (w : World) {mayFail : Backend.Request → Bool} :
    (unreliable mayFail).Follows w (both (weave schedule p q w).1)
      (weave schedule p q w).2.2.2 := by
  induction schedule generalizing p q w with
  | nil => exact .nil w
  | cons caller schedule ih =>
    cases caller with
    | first =>
      cases p with
      | done a => exact .nil w
      | call r next => exact .cons ⟨w, .refl w, .served⟩ (ih _ _ _)
    | second =>
      cases q with
      | done b => exact .nil w
      | call r next => exact .cons ⟨w, .refl w, .served⟩ (ih _ _ _)

end AccessControl.World
