import AccessControl.Cached.Access
import AccessControl.Proofs.Program.Transcript

/-! # Runs of services

A service is a program that ends in a result or in a failure, and the first step that fails
ends it.  Here the two ways of looking at runs (`Program.Transcript` and
`Outside.Ensures`) are carried over to the steps of which services consist: a sequence of
steps, a program or a check as a step, a request, and the steps that tell how another step
ended (`Backend.outcome`) and end in the same way (`Backend.conclude`).
-/
namespace AccessControl

namespace Program
variable {α β : Type}

/-- **A sequence of steps ends in a result if both do, and in a failure if one does.** -/
theorem transcript_run_bind_iff {x : Service α} {f : α → Service β}
    {t : List (Exchange Backend)} {r : Except Failure β} :
    (x >>= f).run.Transcript t r ↔
      (∃ t₁ a t₂, t = t₁ ++ t₂ ∧ x.run.Transcript t₁ (.ok a) ∧ (f a).run.Transcript t₂ r) ∨
      ∃ failure, r = .error failure ∧ x.run.Transcript t (.error failure) := by
  rw [ExceptT.run_bind, transcript_bind_iff]
  constructor
  · -- After a failure the rest of the steps is a program that has already finished.
    rintro ⟨t₁, a | failure, t₂, rfl, h₁, h₂⟩
    · obtain ⟨rfl, rfl⟩ := transcript_done_iff.mp h₂
      exact .inr ⟨a, rfl, by rwa [List.append_nil]⟩
    · exact .inl ⟨t₁, failure, t₂, rfl, h₁, h₂⟩
  · rintro (⟨t₁, a, t₂, rfl, h₁, h₂⟩ | ⟨failure, rfl, h⟩)
    · exact ⟨t₁, .ok a, t₂, rfl, h₁, h₂⟩
    · exact ⟨t, .error failure, [], (List.append_nil t).symm, h, .done _⟩

/-- A sequence of steps that ends in a result had a result after its first step. -/
theorem transcript_run_bind_ok_iff {x : Service α} {f : α → Service β}
    {t : List (Exchange Backend)} {b : β} :
    (x >>= f).run.Transcript t (.ok b) ↔
      ∃ t₁ a t₂, t = t₁ ++ t₂ ∧ x.run.Transcript t₁ (.ok a) ∧
        (f a).run.Transcript t₂ (.ok b) := by
  rw [transcript_run_bind_iff]
  constructor
  · rintro (h | ⟨failure, hfailure, -⟩)
    · exact h
    · cases hfailure
  · exact .inl

theorem transcript_run_pure_iff {a : α} {t : List (Exchange Backend)} {r : Except Failure α} :
    (pure a : Service α).run.Transcript t r ↔ t = [] ∧ r = .ok a :=
  transcript_done_iff

theorem transcript_run_throw_iff {failure : Failure} {t : List (Exchange Backend)}
    {r : Except Failure α} :
    (throw failure : Service α).run.Transcript t r ↔ t = [] ∧ r = .error failure :=
  transcript_done_iff

theorem transcript_run_check_iff {check : Except Failure α} {t : List (Exchange Backend)}
    {r : Except Failure α} :
    (liftM check : Service α).run.Transcript t r ↔ t = [] ∧ r = check :=
  transcript_done_iff

theorem transcript_run_lift_iff {p : Program Backend α} {t : List (Exchange Backend)}
    {r : Except Failure α} :
    (liftM p : Service α).run.Transcript t r ↔ ∃ a, r = .ok a ∧ p.Transcript t a := by
  show (p >>= fun a => done (Except.ok a)).Transcript t r ↔ _
  rw [transcript_bind_iff]
  constructor
  · rintro ⟨t₁, a, t₂, rfl, h₁, h₂⟩
    obtain ⟨rfl, rfl⟩ := transcript_done_iff.mp h₂
    exact ⟨a, rfl, by rwa [List.append_nil]⟩
  · rintro ⟨a, rfl, h⟩
    exact ⟨t, a, [], (List.append_nil t).symm, h, .done _⟩

theorem transcript_run_outcome_iff {x : Service α} {t : List (Exchange Backend)}
    {r : Except Failure (Except Failure α)} :
    (Backend.outcome x).run.Transcript t r ↔ ∃ ended, r = .ok ended ∧ x.run.Transcript t ended :=
  transcript_run_lift_iff

/-- After a step that tells how another one ended the next is taken, however that was. -/
theorem transcript_run_outcome_bind_iff {x : Service α} {f : Except Failure α → Service β}
    {t : List (Exchange Backend)} {r : Except Failure β} :
    (Backend.outcome x >>= f).run.Transcript t r ↔
      ∃ t₁ ended t₂, t = t₁ ++ t₂ ∧ x.run.Transcript t₁ ended ∧
        (f ended).run.Transcript t₂ r := by
  rw [transcript_run_bind_iff]
  constructor
  · rintro (⟨t₁, _, t₂, rfl, h₁, h₂⟩ | ⟨_, -, h⟩)
    · obtain ⟨_, heq, h₁⟩ := transcript_run_outcome_iff.mp h₁
      obtain rfl := Except.ok.inj heq
      exact ⟨t₁, _, t₂, rfl, h₁, h₂⟩
    · obtain ⟨_, heq, -⟩ := transcript_run_outcome_iff.mp h
      cases heq
  · rintro ⟨t₁, ended, t₂, rfl, h₁, h₂⟩
    exact .inl ⟨t₁, ended, t₂, rfl, transcript_run_outcome_iff.mpr ⟨ended, rfl, h₁⟩, h₂⟩

theorem transcript_run_conclude_iff {ended : Except Failure α} {t : List (Exchange Backend)}
    {r : Except Failure α} :
    (Backend.conclude ended).run.Transcript t r ↔ t = [] ∧ r = ended :=
  transcript_done_iff

/-- Of two steps one after the other the first is given up or fails, or it has ended in a result
and the second is given up. -/
theorem Begins.run_bind_cases {x : Service α} {f : α → Service β} {t : List (Exchange Backend)}
    (h : (x >>= f).run.Begins t) :
    x.run.Begins t ∨
      ∃ t₁ a t₂, t = t₁ ++ t₂ ∧ x.run.Transcript t₁ (.ok a) ∧ (f a).run.Begins t₂ := by
  rw [ExceptT.run_bind] at h
  rcases h.bind_cases with h | ⟨t₁, a | failure, t₂, rfl, h₁, h₂⟩
  · exact .inl h
  · obtain rfl := begins_done h₂
    exact .inl (by rw [List.append_nil]; exact h₁.begins)
  · exact .inr ⟨t₁, failure, t₂, rfl, h₁, h₂⟩

/-! ## Requests of one kind -/

section Asks
variable {P : Backend.Request → Prop}

theorem asks_backend (r : Backend.Request) (h : P r) : (Backend.request r).Asks P :=
  asks_request (I := Backend) h

theorem asks_run_pure (a : α) : (pure a : Service α).run.Asks P := asks_done _

theorem asks_run_throw (failure : Failure) : (throw failure : Service α).run.Asks P := asks_done _

theorem asks_run_check (check : Except Failure α) : (liftM check : Service α).run.Asks P :=
  asks_done _

theorem Asks.run_lift {p : Program Backend α} (hp : p.Asks P) :
    (liftM p : Service α).run.Asks P := by
  show (p >>= fun a => done (Except.ok a)).Asks P
  exact hp.bind fun a => asks_done _

theorem Asks.run_outcome {x : Service α} (hx : x.run.Asks P) : (Backend.outcome x).run.Asks P :=
  hx.run_lift

theorem asks_run_conclude (ended : Except Failure α) : (Backend.conclude ended).run.Asks P :=
  asks_done _

theorem asks_remove {key : CacheKey} (h : P (.cacheDelete key.text)) :
    (Cached.remove key).Asks P :=
  (asks_backend (.cacheDelete key.text) h).bind fun _ => asks_done _

theorem asks_read [Json.Form α] {key : CacheKey} (hget : P (.cacheGet key.text))
    (hdelete : P (.cacheDelete key.text)) : (Cached.read α key).Asks P := by
  refine (asks_backend (.cacheGet key.text) hget).bind fun found => ?_
  split
  · split
    · exact asks_done _
    · exact (asks_remove hdelete).bind fun _ => asks_done _
  · exact asks_done _

theorem asks_store [Cached.Item α] {seconds : UInt32} {item : α}
    (h : P (.cacheSet (Cached.Item.key item).text (Json.write item) seconds)) :
    (Cached.store seconds item).Asks P :=
  (asks_backend (.cacheSet _ _ _) h).bind fun _ => asks_done _

end Asks
end Program

namespace Backend

@[simp] theorem request_eq (r : Request) : request r = Program.request (I := Backend) r := rfl

end Backend

namespace Outside
variable {σ α β : Type} {O : Outside Backend σ} {s : σ}

@[simp] theorem ensures_run_bind {x : Service α} {f : α → Service β}
    {Q : Except Failure β → σ → Prop} :
    O.Ensures (x >>= f).run s Q ↔
      O.Ensures x.run s (fun r m =>
        match r with
        | .ok a => O.Ensures (f a).run m Q
        | .error failure => Q (.error failure) m) := by
  rw [ExceptT.run_bind, ensures_bind]
  constructor
  · intro h
    refine h.mono fun r m hr => ?_
    cases r with
    | ok a => exact hr
    | error failure =>
      show Q (.error failure) m
      exact ensures_done.mp hr
  · intro h
    refine h.mono fun r m hr => ?_
    cases r with
    | ok a => exact hr
    | error failure =>
      have hend : Q (.error failure) m := hr
      exact ensures_done.mpr hend

@[simp] theorem ensures_run_pure {a : α} {Q : Except Failure α → σ → Prop} :
    O.Ensures (pure a : Service α).run s Q ↔ Q (.ok a) s := ensures_done

@[simp] theorem ensures_run_throw {failure : Failure} {Q : Except Failure α → σ → Prop} :
    O.Ensures (throw failure : Service α).run s Q ↔ Q (.error failure) s := ensures_done

@[simp] theorem ensures_run_check {check : Except Failure α} {Q : Except Failure α → σ → Prop} :
    O.Ensures (liftM check : Service α).run s Q ↔ Q check s := ensures_done

@[simp] theorem ensures_run_lift {p : Program Backend α} {Q : Except Failure α → σ → Prop} :
    O.Ensures (liftM p : Service α).run s Q ↔ O.Ensures p s (fun a m => Q (.ok a) m) := by
  show O.Ensures (p >>= fun a => .done (.ok a)) s Q ↔ _
  simp only [ensures_bind, ensures_done]

@[simp] theorem ensures_run_outcome {x : Service α}
    {Q : Except Failure (Except Failure α) → σ → Prop} :
    O.Ensures (Backend.outcome x).run s Q ↔ O.Ensures x.run s (fun r m => Q (.ok r) m) :=
  ensures_run_lift

@[simp] theorem ensures_run_conclude {ended : Except Failure α}
    {Q : Except Failure α → σ → Prop} :
    O.Ensures (Backend.conclude ended).run s Q ↔ Q ended s := ensures_done

/-! ## What a service preserves -/

/-- A service leaves a property as it is, whether it ends in a result or in a failure. -/
def Preserves (O : Outside Backend σ) (R : σ → Prop) (x : Service α) : Prop :=
  ∀ s, R s → O.Ensures x.run s fun _ s' => R s'

section Preserves
variable {R : σ → Prop}

/-- What both of two steps preserve, they preserve one after the other. -/
theorem Preserves.bind {x : Service α} {f : α → Service β} (hx : O.Preserves R x)
    (hf : ∀ a, O.Preserves R (f a)) : O.Preserves R (x >>= f) := by
  intro s hs
  rw [ensures_run_bind]
  refine (hx s hs).mono fun r m hm => ?_
  cases r with
  | ok a => exact hf a m hm
  | error failure => exact hm

theorem preserves_pure (a : α) : O.Preserves R (pure a : Service α) :=
  fun _ hs => ensures_run_pure.mpr hs

theorem preserves_throw (failure : Failure) : O.Preserves R (throw failure : Service α) :=
  fun _ hs => ensures_run_throw.mpr hs

theorem preserves_check (check : Except Failure α) : O.Preserves R (liftM check : Service α) :=
  fun _ hs => ensures_run_check.mpr hs

theorem Preserves.only {P : Exchange Backend → Prop} {x : Service α} (hx : O.Preserves R x) :
    (O.only P).Preserves R x := fun s hs => (hx s hs).only

/-- A service whose requests all preserve a property preserves it. -/
theorem preserves_of_asks {P : Backend.Request → Prop} {x : Service α} (hx : x.run.Asks P)
    (step : ∀ r s a s', P r → O.Answers r s a s' → R s → R s') : O.Preserves R x :=
  fun _ hs => ensures_of_asks hx step hs

end Preserves
end Outside
end AccessControl
