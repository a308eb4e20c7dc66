import AccessControl.Proofs.Database.Plan

/-! # Writes happen whole or not at all

A write sends the beginning of a transaction, then statements of its plan in their order, then
how the transaction ends.  It commits only after its whole plan, and it succeeds exactly if the
commit does.  Otherwise everything is rolled back, and the failure tells by its kind which reply
ended the plan.

The first reply that does not let the write go on is unique (`split_unique`).  So what a write
does and how it ends are read off that reply.
-/
namespace AccessControl.Database
variable {script : Script} {α : Type} {plan : List Statement} {result : Except Failure α}
  {sent : List Request}

/-! ## The reply that ends a plan -/

/-- A statement of a plan is reached, and this is the reply to it. -/
def Reached (script : Script) (plan : List Statement) (s : Statement)
    (reply : Except Report (Reply s.Row)) : Prop :=
  ∃ done rest, plan = done ++ s :: rest ∧ Passed script 0 done ∧
    script.reply done.length s = reply

theorem Reached.mem {s : Statement} {reply : Except Report (Reply s.Row)}
    (h : Reached script plan s reply) : s ∈ plan := by
  obtain ⟨done, rest, rfl, -, -⟩ := h
  exact List.mem_append_right done List.mem_cons_self

/-- **A write does not go on** after a report, and not without the row that it asks for. -/
theorem not_passes_iff {s : Statement} {reply : Except Report (Reply s.Row)} :
    ¬Passes s reply ↔ (∃ report, reply = .error report) ∨ ∃ r, reply = .ok r ∧ s.LacksRow r := by
  constructor
  · intro h
    cases reply with
    | error report => exact .inl ⟨report, rfl⟩
    | ok r =>
      by_cases hlacks : s.LacksRow r
      · exact .inr ⟨r, rfl, hlacks⟩
      · exact absurd ⟨r, rfl, hlacks⟩ h
  · rintro (⟨report, rfl⟩ | ⟨r, rfl, hlacks⟩) ⟨r', hr, hrow⟩
    · cases hr
    · exact hrow (Except.ok.inj hr ▸ hlacks)

/-- Where all statements have passed, each of them has. -/
theorem passes_of_passed {done rest : List Statement} {s : Statement}
    (h : Passed script 0 (done ++ s :: rest)) : Passes s (script.reply done.length s) := by
  have hrest := (passed_append.mp h).2
  rw [Nat.zero_add] at hrest
  exact hrest.1

/-- **A plan is ended by one statement alone.** -/
theorem split_unique {done done' rest rest' : List Statement} {s s' : Statement}
    (heq : done ++ s :: rest = done' ++ s' :: rest') (hdone : Passed script 0 done)
    (hdone' : Passed script 0 done') (hs : ¬Passes s (script.reply done.length s))
    (hs' : ¬Passes s' (script.reply done'.length s')) : done = done' ∧ s = s' ∧ rest = rest' := by
  rcases List.append_eq_append_iff.mp heq with ⟨between, rfl, hrest⟩ | ⟨between, rfl, hrest⟩
  · cases between with
    | nil =>
      obtain ⟨rfl, rfl⟩ := List.cons.inj hrest
      exact ⟨(List.append_nil _).symm, rfl, rfl⟩
    | cons t between =>
      obtain ⟨rfl, -⟩ := List.cons.inj hrest
      exact absurd (passes_of_passed hdone') hs
  · cases between with
    | nil =>
      obtain ⟨rfl, rfl⟩ := List.cons.inj hrest
      exact ⟨List.append_nil _, rfl, rfl⟩
    | cons t between =>
      obtain ⟨rfl, -⟩ := List.cons.inj hrest
      exact absurd (passes_of_passed hdone) hs'

namespace Course

/-- **The first reply that does not let a write go on ends its plan**, and everything is rolled
back. -/
theorem ends_at {done rest : List Statement} {s : Statement}
    (h : Course script (done ++ s :: rest) result sent) (hbegin : script.begin = .ok ())
    (hdone : Passed script 0 done) (hs : ¬Passes s (script.reply done.length s)) :
    (∃ failure, result = .error failure ∧ Stops s (script.reply done.length s) failure) ∧
    sent = .begin :: ((done ++ [s]).map .execute ++ [.rollback]) := by
  generalize hplan : done ++ s :: rest = plan at h
  cases h with
  | notBegun hfails => cases hbegin.symm.trans hfails
  | stopped _ hsplit hdone' hstops =>
    obtain ⟨rfl, rfl, -⟩ := split_unique (hplan.trans hsplit) hdone hdone' hs hstops.not_passes
    exact ⟨⟨_, rfl, hstops⟩, rfl⟩
  | notCommitted _ hpassed _ => exact absurd (passes_of_passed (hplan ▸ hpassed)) hs
  | committed _ hpassed _ => exact absurd (passes_of_passed (hplan ▸ hpassed)) hs

/-- What a reached reply does to the write, if it does not let it go on. -/
theorem stops_of_reached {s : Statement} {reply : Except Report (Reply s.Row)}
    (h : Course script plan result sent) (hbegin : script.begin = .ok ())
    (hreached : Reached script plan s reply) (hs : ¬Passes s reply) :
    ∃ failure, result = .error failure ∧ Stops s reply failure := by
  obtain ⟨done, rest, rfl, hdone, rfl⟩ := hreached
  exact (h.ends_at hbegin hdone hs).1

/-- A failure that is not internal comes from the reply that ended the plan. -/
theorem reached_of_error {failure : Failure}
    (h : Course script plan (.error failure : Except Failure α) sent) :
    (∃ detail, failure = .internal detail) ∨
    script.begin = .ok () ∧ ∃ s reply, Reached script plan s reply ∧ Stops s reply failure := by
  cases h with
  | notBegun _ => exact .inl ⟨_, rfl⟩
  | stopped hbegin hplan hdone hs => exact .inr ⟨hbegin, _, _, ⟨_, _, hplan, hdone, rfl⟩, hs⟩
  | notCommitted _ _ _ => exact .inl ⟨_, rfl⟩

/-! ## Requests and results -/

/-- What a write sends: the beginning, statements of the plan from its first on, and the end. -/
theorem bracketed (h : Course script plan result sent) (hbegin : script.begin = .ok ()) :
    ∃ done rest ending, plan = done ++ rest ∧ sent = .begin :: (done.map .execute ++ ending) ∧
      (ending = [.rollback] ∨ rest = [] ∧
        (ending = [.commit] ∧ script.commit = .ok () ∨
          ending = [.commit, .rollback] ∧ ∃ report, script.commit = .error report)) := by
  cases h with
  | notBegun hfails => cases hbegin.symm.trans hfails
  | stopped _ hplan _ _ =>
    exact ⟨_, _, [.rollback], hplan.trans (List.append_cons ..), rfl, .inl rfl⟩
  | notCommitted _ _ hcommit =>
    exact ⟨plan, [], [.commit, .rollback], (List.append_nil plan).symm, rfl,
      .inr ⟨rfl, .inr ⟨rfl, _, hcommit⟩⟩⟩
  | committed _ _ hcommit =>
    exact ⟨plan, [], [.commit], (List.append_nil plan).symm, rfl, .inr ⟨rfl, .inl ⟨rfl, hcommit⟩⟩⟩

/-- **A write commits exactly after its whole plan.** -/
theorem commit_mem_iff (h : Course script plan result sent) :
    .commit ∈ sent ↔ script.begin = .ok () ∧ Passed script 0 plan := by
  cases h with
  | notBegun hfails => simp [hfails]
  | stopped _ hplan hdone hs =>
    constructor
    · simp
    · rintro ⟨-, hpassed⟩
      exact absurd (passes_of_passed (hplan ▸ hpassed)) hs.not_passes
  | notCommitted hbegin hpassed _ => simp [hbegin, hpassed]
  | committed hbegin hpassed _ => simp [hbegin, hpassed]

/-- **A write succeeds exactly if its commit is sent and succeeds.** -/
theorem ok_iff (h : Course script plan result sent) :
    (∃ a, result = .ok a) ↔ .commit ∈ sent ∧ script.commit = .ok () := by
  cases h with
  | notBegun _ => simp
  | stopped _ _ _ _ => simp
  | notCommitted _ _ hcommit => simp [hcommit]
  | committed _ _ hcommit => simp [hcommit]

/-! ## Kinds of failures -/

/-- A write is in **conflict** exactly if the name of a role is reported as taken. -/
theorem conflict_iff (h : Course script plan result sent) :
    (∃ detail, result = .error (.conflict detail)) ↔ script.begin = .ok () ∧
      ∃ s report, s.writesRole = true ∧ Reached script plan s (.error report) ∧
        report.code = uniqueViolation := by
  constructor
  · rintro ⟨detail, rfl⟩
    rcases h.reached_of_error with ⟨_, hinternal⟩ | ⟨hbegin, s, reply, hreached, hstops⟩
    · cases hinternal
    · cases hstops with
      | nameTaken hs hcode => exact ⟨hbegin, s, _, hs, hreached, hcode⟩
  · rintro ⟨hbegin, s, report, hs, hreached, hcode⟩
    obtain ⟨failure, rfl, hstops⟩ :=
      h.stops_of_reached hbegin hreached (not_passes_iff.mpr (.inl ⟨report, rfl⟩))
    cases hstops with
    | nameTaken _ _ => exact ⟨_, rfl⟩
    | referenceMissing hreference _ => cases s <;> cases hs <;> cases hreference
    | reported hname _ => exact absurd hcode (hname hs)

/-- A write **does not find** something exactly if its owner is not there, or if the database
reports that the user or a role given to the user is not. -/
theorem notFound_iff (h : Course script plan result sent) :
    (∃ detail, result = .error (.notFound detail)) ↔ script.begin = .ok () ∧
      ((∃ s reply, s.asksForOwner = true ∧ Reached script plan s (.ok reply) ∧
          s.LacksRow reply) ∨
        ∃ s report, s.insertsForUser = true ∧ Reached script plan s (.error report) ∧
          report.code = foreignKeyViolation) := by
  constructor
  · rintro ⟨detail, rfl⟩
    rcases h.reached_of_error with ⟨_, hinternal⟩ | ⟨hbegin, s, reply, hreached, hstops⟩
    · cases hinternal
    · cases hstops with
      | referenceMissing hs hcode => exact ⟨hbegin, .inr ⟨s, _, hs, hreached, hcode⟩⟩
      | ownerMissing hs hlacks => exact ⟨hbegin, .inl ⟨s, _, hs, hreached, hlacks⟩⟩
  · rintro ⟨hbegin, ⟨s, reply, hs, hreached, hlacks⟩ | ⟨s, report, hs, hreached, hcode⟩⟩
    · obtain ⟨failure, rfl, hstops⟩ :=
        h.stops_of_reached hbegin hreached (not_passes_iff.mpr (.inr ⟨reply, rfl, hlacks⟩))
      cases hstops with
      | ownerMissing _ _ => exact ⟨_, rfl⟩
      | nothingGiven hasks _ => cases hs.symm.trans hasks
    · obtain ⟨failure, rfl, hstops⟩ :=
        h.stops_of_reached hbegin hreached (not_passes_iff.mpr (.inl ⟨report, rfl⟩))
      cases hstops with
      | nameTaken hname _ => cases s <;> cases hs <;> cases hname
      | referenceMissing _ _ => exact ⟨_, rfl⟩
      | reported _ hreference => exact absurd hcode (hreference hs)

/-- There are no other kinds. -/
theorem kinds {failure : Failure}
    (h : Course script plan (.error failure : Except Failure α) sent) :
    ∃ detail, failure = .conflict detail ∨ failure = .notFound detail ∨
      failure = .internal detail := by
  rcases h.reached_of_error with ⟨detail, hinternal⟩ | ⟨-, s, reply, -, hstops⟩
  · exact ⟨detail, .inr (.inr hinternal)⟩
  · cases hstops with
    | nameTaken _ _ => exact ⟨_, .inl rfl⟩
    | referenceMissing _ _ => exact ⟨_, .inr (.inl rfl)⟩
    | reported _ _ => exact ⟨_, .inr (.inr rfl)⟩
    | ownerMissing _ _ => exact ⟨_, .inr (.inl rfl)⟩
    | nothingGiven _ _ => exact ⟨_, .inr (.inr rfl)⟩

/-- Nothing follows a beginning that fails. -/
theorem of_notBegun {report : Report} (h : Course script plan result sent)
    (hbegin : script.begin = .error report) : sent = [.begin] := by
  cases h with
  | notBegun _ => rfl
  | stopped hbegun _ _ _ => cases hbegun.symm.trans hbegin
  | notCommitted hbegun _ _ => cases hbegun.symm.trans hbegin
  | committed hbegun _ _ => cases hbegun.symm.trans hbegin

end Course

/-! ## Writes -/

/-- **Whole or not at all**: what is sent for a plan, and how it ends. -/
structure WholeOrNothing (script : Script) (plan : List Statement) (result : Except Failure α)
    (sent : List Request) : Prop where
  /-- Nothing follows a beginning that fails. -/
  notBegun : ∀ report, script.begin = .error report → sent = [.begin]
  /-- After a beginning come statements of the plan, from its first on, and then an end. -/
  bracketed : script.begin = .ok () → ∃ done rest ending,
    plan = done ++ rest ∧ sent = .begin :: (done.map .execute ++ ending) ∧
    (ending = [.rollback] ∨ rest = [] ∧
      (ending = [.commit] ∧ script.commit = .ok () ∨
        ending = [.commit, .rollback] ∧ ∃ report, script.commit = .error report))
  /-- It is committed exactly after the whole plan. -/
  commit_iff : .commit ∈ sent ↔ script.begin = .ok () ∧ Passed script 0 plan
  /-- It succeeds exactly if the commit is sent and succeeds. -/
  ok_iff : (∃ a, result = .ok a) ↔ .commit ∈ sent ∧ script.commit = .ok ()
  /-- The first report, or the first reply without the row that is asked for, ends the plan. -/
  stopped : ∀ done s rest, plan = done ++ s :: rest → script.begin = .ok () →
    Passed script 0 done →
    ((∃ report, script.reply done.length s = .error report) ∨
      ∃ reply, script.reply done.length s = .ok reply ∧ s.LacksRow reply) →
    sent = .begin :: ((done ++ [s]).map .execute ++ [.rollback])
  /-- It is in conflict exactly if a taken name is reported where the row of a role is
  written. -/
  conflict_iff : (∃ detail, result = .error (.conflict detail)) ↔ script.begin = .ok () ∧
    ∃ s report, s.writesRole = true ∧ Reached script plan s (.error report) ∧
      report.code = "23505"
  /-- Something is not found exactly if the owner is not there, or if a missing reference is
  reported where something is stored for a user. -/
  notFound_iff : (∃ detail, result = .error (.notFound detail)) ↔ script.begin = .ok () ∧
    ((∃ s reply, s.asksForOwner = true ∧ Reached script plan s (.ok reply) ∧
        s.LacksRow reply) ∨
      ∃ s report, s.insertsForUser = true ∧ Reached script plan s (.error report) ∧
        report.code = "23503")
  /-- Every other failure is internal. -/
  kinds : ∀ failure, result = .error failure →
    ∃ detail, failure = .conflict detail ∨ failure = .notFound detail ∨ failure = .internal detail

theorem Course.wholeOrNothing (h : Course script plan result sent) :
    WholeOrNothing script plan result sent where
  notBegun _ hbegin := h.of_notBegun hbegin
  bracketed := h.bracketed
  commit_iff := h.commit_mem_iff
  ok_iff := h.ok_iff
  stopped done s rest hplan hbegin hdone hs := by
    subst hplan
    exact (h.ends_at hbegin hdone (not_passes_iff.mpr hs)).2
  conflict_iff := h.conflict_iff
  notFound_iff := h.notFound_iff
  kinds failure hfailure := by
    subst hfailure
    exact h.kinds

end AccessControl.Database
