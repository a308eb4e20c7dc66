import AccessControl.Proofs.Database.Atomicity
import AccessControl.Proofs.Store.Writes

/-! # Owners of what is replaced

The rows of a role and the rows of a user are replaced only after the row of their owner has been
looked up and locked: without it nothing follows but the rollback (`RequiresOwner`).

**The roles of a user are replaced without that.**  The old ones are deleted at once, no statement
asks for the user, and a user who is not there is noticed only if there is a role to be inserted.
With no role to be inserted the write succeeds (`replaceUserRoles_nil_ok_iff`), whereas a store in
memory does not find the user.
-/
namespace AccessControl
namespace Database

/-! ## Writes that require their owner -/

/-- **A write requires its owner**: the first statement of its transaction locks the row of the
owner, and if there is none, the write does not find the owner and rolls back. -/
structure RequiresOwner (w : Write) (lock : Statement) : Prop where
  locks : (∃ table, lock.text = "SELECT id FROM " ++ table ++ " WHERE id = $1 FOR UPDATE") ∧
    ∀ given, lock.parameters = [.number (w.owner given)]
  asks : ∀ script, script.begin = .ok () →
    ∃ later, w.sent script = .begin :: .execute lock :: later
  misses : ∀ script reply, script.begin = .ok () → script.reply 0 lock = .ok reply →
    reply.rows = [] → (∃ detail, w.result script = .error (.notFound detail)) ∧
      w.sent script = [.begin, .execute lock, .rollback]

section Course
variable {script : Script} {α : Type} {result : Except Failure α} {sent : List Request}

/-- The first statement of a plan is always sent. -/
theorem Course.sends_first {s : Statement} {rest : List Statement}
    (h : Course script (s :: rest) result sent) (hbegin : script.begin = .ok ()) :
    ∃ later, sent = .begin :: .execute s :: later := by
  cases h with
  | notBegun hfails => cases hbegin.symm.trans hfails
  | @stopped done _ _ _ _ hplan _ _ =>
    cases done with
    | nil =>
      obtain ⟨rfl, -⟩ := List.cons.inj hplan
      exact ⟨_, rfl⟩
    | cons first done =>
      obtain ⟨rfl, -⟩ := List.cons.inj hplan
      exact ⟨_, rfl⟩
  | notCommitted _ _ _ => exact ⟨_, rfl⟩
  | committed _ _ _ => exact ⟨_, rfl⟩

end Course

/-- A write whose plan begins with a lock requires its owner. -/
theorem requiresOwner_of_plan {w : Write} {lock : Statement}
    (hlocks : (∃ table, lock.text = "SELECT id FROM " ++ table ++ " WHERE id = $1 FOR UPDATE") ∧
      ∀ given, lock.parameters = [.number (w.owner given)])
    (hasks : lock.asksForOwner = true)
    (hrow : ∀ reply, lock.LacksRow reply ↔ reply.rows = [])
    (hplan : ∀ given, ∃ rest, w.plan given = lock :: rest) : RequiresOwner w lock where
  locks := hlocks
  asks script hbegin := by
    obtain ⟨rest, hrest⟩ := hplan (w.given script)
    have hcourse := w.course script
    rw [hrest] at hcourse
    exact hcourse.sends_first hbegin
  misses script reply hbegin hreply hrows := by
    obtain ⟨rest, hrest⟩ := hplan (w.given script)
    have hcourse := w.course script
    rw [hrest] at hcourse
    have hlacks : lock.LacksRow reply := (hrow reply).mpr hrows
    refine ⟨hcourse.notFound_iff.mpr ⟨hbegin, .inl ⟨lock, reply, hasks, ?_, hlacks⟩⟩,
      hcourse.wholeOrNothing.stopped [] lock rest rfl hbegin trivial (.inr ⟨reply, hreply, hlacks⟩)⟩
    exact ⟨[], rest, rfl, trivial, hreply⟩

theorem requiresOwner_replaceRoleGrants (role : RoleId) (grants : List Grant) :
    RequiresOwner (.replaceRoleGrants role grants) (.lockRole role) :=
  requiresOwner_of_plan ⟨⟨"roles", rfl⟩, fun _ => rfl⟩ rfl (fun _ => .rfl) fun _ => ⟨_, rfl⟩

theorem requiresOwner_replaceUserGrants (user : UserId) (grants : List Grant) :
    RequiresOwner (.replaceUserGrants user grants) (.lockUser user) :=
  requiresOwner_of_plan ⟨⟨"users", rfl⟩, fun _ => rfl⟩ rfl (fun _ => .rfl) fun _ => ⟨_, rfl⟩

/-! ## Roles of users -/

/-- A database where everything succeeds and nothing is found. -/
def emptyHanded : Script where
  begin := .ok ()
  commit := .ok ()
  reply _ _ := .ok ⟨[], 0⟩

variable (user : UserId) (roles : List RoleId) (script : Script)

/-- What is executed to replace the roles of a user. -/
theorem mem_plan_replaceUserRoles {s : Statement} {given : RoleId} :
    s ∈ (Write.replaceUserRoles user roles).plan given ↔
      s = .deleteUserRoles user ∨ ∃ role ∈ roles, s = .insertUserRole user role := by
  simp [Write.plan, Write.lead, Write.clears, Write.inserts, eq_comm]

/-- **A user is not found only if a missing reference is reported for an inserted role.** -/
theorem replaceUserRoles_notFound_iff :
    (∃ detail, (Write.replaceUserRoles user roles).result script = .error (.notFound detail)) ↔
      script.begin = .ok () ∧ ∃ role ∈ roles, ∃ report,
        Reached script (.deleteUserRoles user :: roles.map (.insertUserRole user))
          (.insertUserRole user role) (.error report) ∧ report.code = foreignKeyViolation := by
  rw [((Write.replaceUserRoles user roles).course script).notFound_iff]
  refine and_congr_right fun _ => ⟨?_, ?_⟩
  · rintro (⟨s, reply, hs, hreached, -⟩ | ⟨s, report, hs, hreached, hcode⟩)
    · rcases (mem_plan_replaceUserRoles user roles).mp hreached.mem with rfl | ⟨role, -, rfl⟩
      · cases hs
      · cases hs
    · rcases (mem_plan_replaceUserRoles user roles).mp hreached.mem with rfl | ⟨role, hrole, rfl⟩
      · cases hs
      · exact ⟨role, hrole, report, hreached, hcode⟩
  · rintro ⟨role, -, report, hreached, hcode⟩
    exact .inr ⟨_, report, rfl, hreached, hcode⟩

/-- **Without roles to be inserted, the user is not looked for at all.** -/
theorem replaceUserRoles_nil_ok_iff :
    (Write.replaceUserRoles user []).result script = .ok () ↔
      script.begin = .ok () ∧ (∃ reply, script.reply 0 (.deleteUserRoles user) = .ok reply) ∧
        script.commit = .ok () := by
  have hcourse := (Write.replaceUserRoles user []).course script
  have hok : (Write.replaceUserRoles user []).result script = .ok () ↔
      ∃ a, (Write.replaceUserRoles user []).result script = .ok a :=
    ⟨fun h => ⟨(), h⟩, fun ⟨_, h⟩ => h⟩
  have hpassed : Passed script 0 ((Write.replaceUserRoles user []).plan
      ((Write.replaceUserRoles user []).given script)) ↔
      ∃ reply, script.reply 0 (.deleteUserRoles user) = .ok reply :=
    ⟨fun h => h.1.imp fun _ hreply => hreply.1,
      fun ⟨reply, hreply⟩ => ⟨⟨reply, hreply, id⟩, trivial⟩⟩
  rw [hok, hcourse.ok_iff, hcourse.commit_mem_iff, hpassed, and_assoc]

/-- Nothing that is executed to replace the roles of a user needs a row. -/
theorem passed_emptyHanded_replaceUserRoles (n : Nat) :
    Passed emptyHanded n (roles.map (.insertUserRole user)) := by
  induction roles generalizing n with
  | nil => trivial
  | cons role roles ih => exact ⟨⟨_, rfl, id⟩, ih (n + 1)⟩

/-- **Replacing the roles of a user does not require the user**, whatever the roles are. -/
theorem not_requiresOwner_replaceUserRoles (lock : Statement) :
    ¬RequiresOwner (.replaceUserRoles user roles) lock := by
  intro h
  have hcourse := (Write.replaceUserRoles user roles).course emptyHanded
  have hpassed : Passed emptyHanded 0 ((Write.replaceUserRoles user roles).plan
      ((Write.replaceUserRoles user roles).given emptyHanded)) :=
    ⟨⟨_, rfl, id⟩, passed_emptyHanded_replaceUserRoles user roles 1⟩
  obtain ⟨a, hok⟩ := hcourse.ok_iff.mpr ⟨hcourse.commit_mem_iff.mpr ⟨rfl, hpassed⟩, rfl⟩
  obtain ⟨⟨detail, hmissing⟩, -⟩ := h.misses emptyHanded ⟨[], 0⟩ rfl rfl rfl
  cases hok.symm.trans hmissing

/-- **Replaced rows require their owner, replaced roles of a user do not**, and a store in memory
requires it for all of them.  Whatever the database replies, the old roles of a user are deleted at
once, and the user is not found only if a missing reference is reported for a role that is
inserted. -/
theorem owners_required_but_for_roles_of_users (role : RoleId) (grants : List Grant)
    (s : Store) :
    RequiresOwner (.replaceRoleGrants role grants) (.lockRole role) ∧
    RequiresOwner (.replaceUserGrants user grants) (.lockUser user) ∧
    (∀ lock, ¬RequiresOwner (.replaceUserRoles user roles) lock) ∧
    (script.begin = .ok () →
      (∃ later, (Write.replaceUserRoles user roles).sent script =
        .begin :: .execute (.deleteUserRoles user) :: later) ∧
      ((∃ detail, (Write.replaceUserRoles user roles).result script = .error (.notFound detail)) ↔
        ∃ role ∈ roles, ∃ report,
          Reached script (.deleteUserRoles user :: roles.map (.insertUserRole user))
            (.insertUserRole user role) (.error report) ∧ report.code = foreignKeyViolation)) ∧
    ((Write.replaceUserRoles user []).result script = .ok () ↔
      script.begin = .ok () ∧ (∃ reply, script.reply 0 (.deleteUserRoles user) = .ok reply) ∧
        script.commit = .ok ()) ∧
    (s.roles.contains role = false →
      ∃ detail, s.replaceRoleGrants role grants = .error (.notFound detail)) ∧
    (s.users.contains user = false →
      (∃ detail, s.replaceUserGrants user grants = .error (.notFound detail)) ∧
      ∃ detail, s.replaceUserRoles user roles = .error (.notFound detail)) := by
  refine ⟨requiresOwner_replaceRoleGrants role grants, requiresOwner_replaceUserGrants user grants,
    not_requiresOwner_replaceUserRoles user roles, fun hbegin => ⟨?_, ?_⟩,
    replaceUserRoles_nil_ok_iff user script, fun hrole => ?_, fun huser => ?_⟩
  · exact ((Write.replaceUserRoles user roles).course script).sends_first hbegin
  · rw [replaceUserRoles_notFound_iff]
    exact and_iff_right hbegin
  · exact ⟨_, Store.replaceRoleGrants_missing hrole grants⟩
  · exact ⟨⟨_, Store.modifyUser_missing huser _⟩, Store.replaceUserRoles_missing huser roles⟩

/-- Nothing is looked up, and the roles of a user who is not there are committed. -/
theorem user_not_looked_for :
    (Write.replaceUserRoles ⟨9⟩ []).sent emptyHanded =
      [.begin, .execute (.deleteUserRoles ⟨9⟩), .commit] ∧
    (Write.replaceUserRoles ⟨9⟩ []).result emptyHanded = .ok () ∧
    ¬RequiresOwner (.replaceUserRoles ⟨9⟩ []) (.lockUser ⟨9⟩) := by
  have hsent : (Write.replaceUserRoles ⟨9⟩ []).sent emptyHanded =
      [.begin, .execute (.deleteUserRoles ⟨9⟩), .commit] := rfl
  refine ⟨hsent, rfl, fun h => ?_⟩
  obtain ⟨later, hasks⟩ := h.asks emptyHanded rfl
  rw [hsent] at hasks
  cases hasks

end Database
end AccessControl
