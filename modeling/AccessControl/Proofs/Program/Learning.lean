import AccessControl.Proofs.Program.Service

/-! # What services make of what they are told

A service knows nothing of its surroundings but the answers that it gets.  So if answers of a kind
lead it to a conclusion, they do so whoever gave them and whatever happened between them
(`Learns`).  Answers that are failures may end it earlier; of these the kind is said too.
-/
namespace AccessControl
open Outside
variable {α β : Type} {fails : Failure → Prop} {P : Exchange Backend → Prop}

/-- A service comes to a conclusion, or it ends in a failure of a kind. -/
def Concludes (fails : Failure → Prop) (answer r : Except Failure α) : Prop :=
  r = answer ∨ ∃ failure, r = .error failure ∧ fails failure

/-- Where nothing fails, a service comes to its conclusion. -/
theorem Concludes.eq {answer r : Except Failure α} (h : Concludes fails answer r)
    (hfails : ∀ failure, ¬fails failure) : r = answer := by
  rcases h with h | ⟨failure, -, hfailed⟩
  · exact h
  · exact absurd hfailed (hfails failure)

/-- A service that concludes with a failure fails. -/
theorem Concludes.exists_error {failure : Failure} {r : Except Failure α}
    (h : Concludes fails (.error failure) r) : ∃ failure', r = .error failure' := by
  rcases h with rfl | ⟨failure', rfl, -⟩
  · exact ⟨failure, rfl⟩
  · exact ⟨failure', rfl⟩

/-- **From answers of a kind a service comes to a conclusion**, unless it fails. -/
def Learns (fails : Failure → Prop) (P : Exchange Backend → Prop) (x : Service α)
    (answer : Except Failure α) : Prop :=
  (giving P).Ensures x.run () fun r _ => Concludes fails answer r

theorem Learns.bind_of {x : Service α} {f : α → Service β} {answer : Except Failure α}
    {g : α → Except Failure β} (hx : Learns fails P x answer)
    (hf : ∀ a, answer = .ok a → Learns fails P (f a) (g a)) :
    Learns fails P (x >>= f) (answer.bind g) := by
  rw [Learns, ensures_run_bind]
  refine Ensures.mono hx fun r _ hr => ?_
  obtain rfl | ⟨failure, rfl, hfailed⟩ := hr
  · cases r with
    | ok a => exact hf a rfl
    | error failure => exact .inl rfl
  · exact .inr ⟨failure, rfl, hfailed⟩

theorem Learns.bind {x : Service α} {f : α → Service β} {a : α} {answer : Except Failure β}
    (hx : Learns fails P x (.ok a)) (hf : Learns fails P (f a) answer) :
    Learns fails P (x >>= f) answer :=
  hx.bind_of (g := fun _ => answer) fun _ ha => Except.ok.inj ha ▸ hf

/-- After a failure a service does nothing more. -/
theorem Learns.bind_error {x : Service α} {failure : Failure}
    (hx : Learns fails P x (.error failure)) (f : α → Service β) :
    Learns fails P (x >>= f) (.error failure) := by
  refine hx.bind_of (g := fun _ => .error failure) fun _ hok => ?_
  cases hok

theorem learns_pure (a : α) : Learns fails P (pure a) (.ok a) := ensures_run_pure.mpr (.inl rfl)

theorem learns_throw (failure : Failure) :
    Learns fails P (throw failure : Service α) (.error failure) :=
  ensures_run_throw.mpr (.inl rfl)

theorem learns_check (check : Except Failure α) : Learns fails P (liftM check) check :=
  ensures_run_check.mpr (.inl rfl)

/-- A check of which nothing is known passes, or it fails somehow. -/
theorem learns_unit (x : Service Unit) : Learns (fun _ => True) P x (.ok ()) := by
  intro _ r _ _ _
  cases r with
  | ok _ => exact .inl rfl
  | error failure => exact .inr ⟨failure, rfl, trivial⟩

/-- A step of which nothing is learnt. -/
theorem learns_lift (p : Program Backend Unit) : Learns fails P (liftM p) (.ok ()) := by
  rw [Learns, ensures_run_lift]
  exact fun _ _ _ _ _ => .inl rfl

/-- What is made of an item that is read, whatever was read. -/
theorem Learns.of_read {p : Program Backend α} {f : α → Service β} {Q : α → Prop}
    {answer : Except Failure β} (hp : (giving P).Ensures p () fun a _ => Q a)
    (hf : ∀ a, Q a → Learns fails P (f a) answer) :
    Learns fails P ((liftM p : Service α) >>= f) answer := by
  rw [Learns, ensures_run_bind, ensures_run_lift]
  exact hp.mono fun a _ ha => hf a ha

/-- **An item that is read from the cache was answered by it.** -/
theorem ensures_giving_read [Json.Form α] (key : CacheKey) {Q : Option α → Prop} (hnone : Q none)
    (hsome : ∀ value item, P ⟨.cacheGet key.text, .ok (some value)⟩ →
      Json.decode? value = some item → Q (some item)) :
    (giving P).Ensures (Cached.read α key) () fun item? _ => Q item? := by
  rw [Cached.read, Backend.request_eq, ensures_bind]
  refine ensures_giving (I := Backend) (r := .cacheGet key.text) fun found hfound => ?_
  rcases found with failure | (_ | value)
  · exact ensures_pure.mpr hnone
  · exact ensures_pure.mpr hnone
  · dsimp only
    cases hitem : Json.decode? (α := α) value with
    | some item => exact ensures_pure.mpr (hsome value item hfound hitem)
    | none =>
      rw [ensures_bind]
      exact fun _ _ _ _ _ => ensures_pure.mpr hnone

end AccessControl
