import AccessControl.Database.Store

/-! # Plans of writes

A write of the database is a transaction around a **plan**: statements whose order, number and
values are fixed by what is to be written (`Write.plan`).  The statements are executed one after
the other; a reply lets the write go on (`Passes`) or ends it with a failure (`Stops`).

Every write carries out its plan (`performs_body`).  So there are four ways for it to go
(`Course`): the transaction does not begin, a reply ends the plan and everything is rolled back,
the commit fails and everything is rolled back, or the whole plan is committed.
-/
namespace AccessControl.Database

/-! ## Writes and their plans -/

/-- A write whose statements belong together. -/
inductive Write where
  | createRole (role : NewRole)
  | updateRole (role : RoleId) (change : RoleChange)
  | replaceRoleGrants (role : RoleId) (grants : List Grant)
  | deleteRole (role : RoleId)
  | replaceUserGrants (user : UserId) (grants : List Grant)
  | replaceUserRoles (user : UserId) (roles : List RoleId)

namespace Write

/-- What a write results in if it succeeds. -/
def Result : Write → Type
  | .createRole _ => Role
  | .deleteRole _ => List UserId
  | _ => Unit

/-- The transaction of a write. -/
def action : (w : Write) → Action w.Result
  | .createRole role => Database.createRole role
  | .updateRole role change => Database.updateRole role change
  | .replaceRoleGrants role grants => Database.replaceRoleGrants role grants
  | .deleteRole role => Database.deleteRole role
  | .replaceUserGrants user grants => Database.replaceUserGrants user grants
  | .replaceUserRoles user roles => Database.replaceUserRoles user roles

/-- How a write ends. -/
def result (w : Write) (script : Script) : Except Failure w.Result := (script.run w.action.run).1

/-- What is sent for a write. -/
def sent (w : Write) (script : Script) : List Request := (script.run w.action.run).2

/-- What comes first: the row of the owner is written or looked up. -/
def lead : Write → List Statement
  | .createRole role => [.insertRole role.name role.displayName role.isPrivileged]
  | .updateRole role change =>
    [.updateRole role change.name change.displayName change.isPrivileged]
  | .replaceRoleGrants role _ => [.lockRole role]
  | .deleteRole _ => []
  | .replaceUserGrants user _ => [.lockUser user]
  | .replaceUserRoles _ _ => []

/-- The rows that are replaced or removed are deleted. -/
def clears : Write → List Statement
  | .createRole _ => []
  | .updateRole role change => (change.grants?.map fun _ => .deleteRoleGrants role).toList
  | .replaceRoleGrants role _ => [.deleteRoleGrants role]
  | .deleteRole role => [.deleteAssignments role, .deleteRole role]
  | .replaceUserGrants user _ => [.deleteUserGrants user]
  | .replaceUserRoles user _ => [.deleteUserRoles user]

/-- The new rows are inserted; those of a role that is created have the number given to it. -/
def inserts (given : RoleId) : Write → List Statement
  | .createRole role => role.grants.map (.insertRoleGrant given)
  | .updateRole role change => (change.grants?.getD []).map (.insertRoleGrant role)
  | .replaceRoleGrants role grants => grants.map (.insertRoleGrant role)
  | .deleteRole _ => []
  | .replaceUserGrants user grants => grants.map (.insertUserGrant user)
  | .replaceUserRoles user roles => roles.map (.insertUserRole user)

/-- **The statements of a write**, in the order in which they are executed. -/
def plan (w : Write) (given : RoleId) : List Statement := w.lead ++ w.clears ++ w.inserts given

/-- The number of the owner of the rows. -/
def owner (given : RoleId) : Write → Int64
  | .createRole _ => given.number
  | .updateRole role _ => role.number
  | .replaceRoleGrants role _ => role.number
  | .deleteRole role => role.number
  | .replaceUserGrants user _ => user.number
  | .replaceUserRoles user _ => user.number

/-- The table of the rows. -/
def table : Write → String
  | .replaceUserGrants _ _ => "user_permissions"
  | .replaceUserRoles _ _ => "user_roles"
  | _ => "role_permissions"

/-- The values of the new rows, each without its owner. -/
def rows : Write → List (List Parameter)
  | .createRole role => role.grants.map fun g => [.text g.permission, .flag g.isGranted]
  | .updateRole _ change =>
    (change.grants?.getD []).map fun g => [.text g.permission, .flag g.isGranted]
  | .replaceRoleGrants _ grants => grants.map fun g => [.text g.permission, .flag g.isGranted]
  | .deleteRole _ => []
  | .replaceUserGrants _ grants => grants.map fun g => [.text g.permission, .flag g.isGranted]
  | .replaceUserRoles _ roles => roles.map fun role => [.number role.number]

/-- The number that the database gives to a role that is created. -/
def given (w : Write) (script : Script) : RoleId :=
  match w with
  | .createRole role =>
    match script.reply 0 (.insertRole role.name role.displayName role.isPrivileged) with
    | .ok reply => (reply.rows.head?.map (·.id)).getD ⟨0⟩
    | .error _ => ⟨0⟩
  | _ => ⟨0⟩

variable (w : Write) (given : RoleId)

end Write

/-! ## Replies -/

namespace Statement

/-- Statements that write the row of a role, whose name no other role may have. -/
def writesRole : Statement → Bool
  | .insertRole _ _ _ => true
  | .updateRole _ _ _ _ => true
  | _ => false

/-- Statements that store something for a user, who must be there, as must what is stored. -/
def insertsForUser : Statement → Bool
  | .insertUserGrant _ _ => true
  | .insertUserRole _ _ => true
  | _ => false

/-- Statements that ask for the row of an owner, which must be there. -/
def asksForOwner : Statement → Bool
  | .updateRole _ _ _ _ => true
  | .lockRole _ => true
  | .deleteRole _ => true
  | .lockUser _ => true
  | _ => false

/-- A reply lacks the row that the statement asks for. -/
def LacksRow : (s : Statement) → Reply s.Row → Prop
  | .insertRole _ _ _, reply => reply.rows = []
  | .updateRole _ _ _ _, reply => reply.affected = 0
  | .lockRole _, reply => reply.rows = []
  | .deleteRole _, reply => reply.affected = 0
  | .lockUser _, reply => reply.rows = []
  | _, _ => False

end Statement

/-- A reply lets a write go on. -/
def Passes (s : Statement) (reply : Except Report (Reply s.Row)) : Prop :=
  ∃ r, reply = .ok r ∧ ¬s.LacksRow r

/-- **A reply ends a write with a failure.** -/
inductive Stops (s : Statement) : Except Report (Reply s.Row) → Failure → Prop where
  /-- The name of the role is that of another. -/
  | nameTaken {report : Report} {detail : String} (hs : s.writesRole = true)
      (hcode : report.code = uniqueViolation) : Stops s (.error report) (.conflict detail)
  /-- The user is not there, or the role that is given to the user is not. -/
  | referenceMissing {report : Report} {detail : String} (hs : s.insertsForUser = true)
      (hcode : report.code = foreignKeyViolation) : Stops s (.error report) (.notFound detail)
  /-- The database reports something else. -/
  | reported {report : Report} {detail : String}
      (hname : s.writesRole = true → report.code ≠ uniqueViolation)
      (hreference : s.insertsForUser = true → report.code ≠ foreignKeyViolation) :
      Stops s (.error report) (.internal detail)
  /-- The owner is not there. -/
  | ownerMissing {reply : Reply s.Row} {detail : String} (hs : s.asksForOwner = true)
      (hlacks : s.LacksRow reply) : Stops s (.ok reply) (.notFound detail)
  /-- The row that was inserted is not given back. -/
  | nothingGiven {reply : Reply s.Row} {detail : String} (hs : s.asksForOwner = false)
      (hlacks : s.LacksRow reply) : Stops s (.ok reply) (.internal detail)

/-- What ends a write does not let it go on. -/
theorem Stops.not_passes {s : Statement} {reply : Except Report (Reply s.Row)} {failure : Failure}
    (h : Stops s reply failure) : ¬Passes s reply := by
  rintro ⟨r, hr, hpasses⟩
  cases h with
  | nameTaken _ _ => cases hr
  | referenceMissing _ _ => cases hr
  | reported _ _ => cases hr
  | ownerMissing _ hlacks =>
    obtain rfl := Except.ok.inj hr
    exact hpasses hlacks
  | nothingGiven _ hlacks =>
    obtain rfl := Except.ok.inj hr
    exact hpasses hlacks

/-! ## Running actions against a script -/

namespace Script
variable (script : Script) {α β : Type}

/-- How a program ends, and what was sent by then, if something was sent before. -/
def go (p : Program Database α) (sent : Sent) : α × Sent :=
  p.interpret (I := Database) (m := StateM Sent) script.answer sent

theorem go_bind (p : Program Database α) (f : α → Program Database β) (sent : Sent) :
    script.go (p >>= f) sent = script.go (f (script.go p sent).1) (script.go p sent).2 := by
  rw [go, Program.interpret_bind]
  rfl

/-- How an action ends, and what was sent by then. -/
def after (x : Action α) (sent : Sent) : Except Failure α × Sent := script.go x.run sent

theorem after_pure (a : α) (sent : Sent) : script.after (pure a) sent = (.ok a, sent) := rfl

/-- A sequence goes on after a result, and ends with a failure. -/
theorem after_bind (x : Action α) (f : α → Action β) (sent : Sent) :
    script.after (x >>= f) sent =
      match script.after x sent with
      | (.ok a, sent') => script.after (f a) sent'
      | (.error failure, sent') => (.error failure, sent') := by
  rw [after, ExceptT.run_bind, go_bind]
  show _ = match script.go x.run sent with
    | (.ok a, sent') => script.after (f a) sent'
    | (.error failure, sent') => (.error failure, sent')
  rcases script.go x.run sent with ⟨_ | a, sent'⟩ <;> rfl

/-- A statement is sent, and its reply is the next of the script. -/
theorem after_execute (s : Statement) (explain : QueryFault → Failure) (sent : Sent) :
    script.after (execute s explain) sent =
      match script.reply sent.statements s with
      | .ok r => (.ok r, .execute s :: sent)
      | .error report => (.error (explain (.reported report)), .execute s :: sent) := by
  rw [after, execute, attempt, ExceptT.run_mk, go_bind]
  have hreply : script.go (request (.execute s)) sent =
      (script.reply sent.statements s, .execute s :: sent) := rfl
  rw [hreply]
  cases script.reply sent.statements s <;> rfl

/-- What is sent around the statements of a transaction. -/
theorem after_transaction (body : Action α) :
    script.after (transaction body) [] =
      match script.begin with
      | .error report => (.error (couldNot "begin transaction" (.reported report)), [.begin])
      | .ok _ =>
        match script.after body [.begin] with
        | (.error failure, sent) => (.error failure, .rollback :: sent)
        | (.ok a, sent) =>
          match script.commit with
          | .ok _ => (.ok a, .commit :: sent)
          | .error report =>
            (.error (couldNot "commit transaction" (.reported report)),
              .rollback :: .commit :: sent) := by
  rw [after, transaction, ExceptT.run_mk, go_bind]
  have hbegin : script.go (request .begin) [] = (script.begin, [.begin]) := rfl
  rw [hbegin]
  dsimp only
  cases script.begin with
  | error report => rfl
  | ok _ =>
    dsimp only
    rw [go_bind, ← after]
    rcases script.after body [.begin] with ⟨failure | a, sent⟩
    · rfl
    · dsimp only
      rw [go_bind]
      have hcommit : script.go (request .commit) sent = (script.commit, .commit :: sent) := rfl
      rw [hcommit]
      cases script.commit <;> rfl

end Script

/-! ## Carrying out a plan -/

/-- All statements of a list pass, the first of which is number `n` of the write. -/
def Passed (script : Script) : Nat → List Statement → Prop
  | _, [] => True
  | n, s :: rest => Passes s (script.reply n s) ∧ Passed script (n + 1) rest

section Performs
variable {script : Script} {α β : Type} {n : Nat} {plan plan' : List Statement}

theorem passed_append : Passed script n (plan ++ plan') ↔
    Passed script n plan ∧ Passed script (n + plan.length) plan' := by
  induction plan generalizing n with
  | nil => simp [Passed]
  | cons s rest ih =>
    rw [List.cons_append, Passed, Passed, ih, List.length_cons, and_assoc, Nat.add_right_comm,
      Nat.add_assoc]

/-- The exchanges of statements, the latest first. -/
theorem statements_sent (plan : List Statement) (sent : Sent) :
    Sent.statements ((plan.map Request.execute).reverse ++ sent) =
      sent.statements + plan.length := by
  induction plan generalizing sent with
  | nil => rfl
  | cons s rest ih =>
    rw [List.map_cons, List.reverse_cons, List.append_assoc, List.singleton_append, ih,
      List.length_cons]
    have hone : Sent.statements (.execute s :: sent) = sent.statements + 1 := by
      simp [Sent.statements]
    omega

/-- **An action carries out a plan**, whose first statement is number `n`: all statements pass and
it has a result, or the first one that does not pass ends it with a failure. -/
def Performs (script : Script) (n : Nat) (x : Action α) (plan : List Statement)
    (Q : α → Prop) : Prop :=
  ∀ sent : Sent, sent.statements = n →
    (Passed script n plan ∧ ∃ a, Q a ∧
      script.after x sent = (.ok a, (plan.map .execute).reverse ++ sent)) ∨
    ∃ done s rest failure, plan = done ++ s :: rest ∧ Passed script n done ∧
      Stops s (script.reply (n + done.length) s) failure ∧
      script.after x sent = (.error failure, ((done ++ [s]).map .execute).reverse ++ sent)

theorem performs_pure {a : α} {Q : α → Prop} (h : Q a) : Performs script n (pure a) [] Q :=
  fun sent _ => .inl ⟨trivial, a, h, script.after_pure a sent⟩

/-- One action after the other carries out one plan after the other. -/
theorem Performs.bind {x : Action α} {f : α → Action β} {Q : α → Prop} {Q' : β → Prop}
    (hx : Performs script n x plan Q)
    (hf : ∀ a, Q a → Performs script (n + plan.length) (f a) plan' Q') :
    Performs script n (x >>= f) (plan ++ plan') Q' := by
  intro sent hsent
  rcases hx sent hsent with
    ⟨hplan, a, ha, hafter⟩ | ⟨done, s, rest, failure, rfl, hdone, hs, hafter⟩
  · rw [Script.after_bind, hafter]
    dsimp only
    rcases hf a ha _ (hsent ▸ statements_sent plan sent) with
      ⟨hplan', b, hb, hafter'⟩ | ⟨done, s, rest, failure, rfl, hdone, hs, hafter'⟩
    · refine .inl ⟨passed_append.mpr ⟨hplan, hplan'⟩, b, hb, ?_⟩
      rw [hafter', List.map_append, List.reverse_append, List.append_assoc]
    · refine .inr ⟨plan ++ done, s, rest, failure, (List.append_assoc ..).symm,
        passed_append.mpr ⟨hplan, hdone⟩, ?_, ?_⟩
      · rw [List.length_append, ← Nat.add_assoc]
        exact hs
      · have hmap : (plan ++ (done ++ [s])).map Request.execute =
            plan.map .execute ++ (done ++ [s]).map .execute := List.map_append
        rw [hafter', List.append_assoc plan, hmap, List.reverse_append, List.append_assoc]
  · refine .inr ⟨done, s, rest ++ plan', failure, by simp, hdone, hs, ?_⟩
    rw [Script.after_bind, hafter]

/-- A statement is executed, and what follows looks at its reply first. -/
theorem performs_execute {s : Statement} {explain : QueryFault → Failure}
    {f : Reply s.Row → Action β} {Q : β → Prop}
    (hreport : ∀ report, Stops s (.error report) (explain (.reported report)))
    (hreply : ∀ reply, script.reply n s = .ok reply →
      (∃ failure, f reply = throw failure ∧ Stops s (.ok reply) failure) ∨
      (¬s.LacksRow reply ∧ Performs script (n + 1) (f reply) plan Q)) :
    Performs script n (execute s explain >>= f) (s :: plan) Q := by
  intro sent hsent
  rw [Script.after_bind, Script.after_execute, hsent]
  cases hs : script.reply n s with
  | error report =>
    exact .inr ⟨[], s, plan, _, rfl, trivial, hs ▸ hreport report, rfl⟩
  | ok reply =>
    dsimp only
    rcases hreply reply hs with ⟨failure, hthrow, hstops⟩ | ⟨hrow, hf⟩
    · refine .inr ⟨[], s, plan, failure, rfl, trivial, hs ▸ hstops, ?_⟩
      rw [hthrow]
      rfl
    · have hpasses : Passes s (script.reply n s) := ⟨reply, hs, hrow⟩
      have hcount : Sent.statements (.execute s :: sent) = n + 1 := by
        rw [← hsent]
        exact statements_sent [s] sent
      rcases hf _ hcount with
        ⟨hplan, b, hb, hafter⟩ | ⟨done, s', rest, failure, rfl, hdone, hs', hafter⟩
      · refine .inl ⟨⟨hpasses, hplan⟩, b, hb, ?_⟩
        rw [hafter, List.map_cons, List.reverse_cons, List.append_assoc]
        rfl
      · refine .inr ⟨s :: done, s', rest, failure, rfl, ⟨hpasses, hdone⟩, ?_, ?_⟩
        · rw [List.length_cons, Nat.add_comm done.length, ← Nat.add_assoc]
          exact hs'
        · rw [hafter, List.cons_append, List.map_cons, List.reverse_cons, List.append_assoc]
          rfl

/-- A statement of which nothing is needed is executed. -/
theorem performs_plain {s : Statement} {explain : QueryFault → Failure} {f : Reply s.Row → Action β}
    {Q : β → Prop} (hreport : ∀ report, Stops s (.error report) (explain (.reported report)))
    (hrow : ∀ reply, ¬s.LacksRow reply) (hf : ∀ reply, Performs script (n + 1) (f reply) plan Q) :
    Performs script n (execute s explain >>= f) (s :: plan) Q :=
  performs_execute hreport fun reply _ => .inr ⟨hrow reply, hf reply⟩

/-- **Inserting the rows of a list one after the other** is one statement for each of them. -/
theorem performs_each {ι : Type} {loop : List ι → Action Unit} {statement : ι → Statement}
    {explain : QueryFault → Failure} (hnil : loop [] = pure ())
    (hcons : ∀ a rest, loop (a :: rest) = execute (statement a) explain >>= fun _ => loop rest)
    (hreport : ∀ a report, Stops (statement a) (.error report) (explain (.reported report)))
    (hrow : ∀ a reply, ¬(statement a).LacksRow reply) (rows : List ι) :
    Performs script n (loop rows) (rows.map statement) fun _ => True := by
  induction rows generalizing n with
  | nil =>
    rw [hnil]
    exact performs_pure trivial
  | cons a rest ih =>
    rw [hcons]
    exact performs_plain (hreport a) (hrow a) fun _ => ih

end Performs

/-! ## The course of a write -/

/-- **How a write may go**: how it ends, and what is sent. -/
inductive Course (script : Script) (plan : List Statement) {α : Type} :
    Except Failure α → List Request → Prop where
  /-- The transaction does not begin, and nothing follows. -/
  | notBegun {report : Report} {detail : String} (hbegin : script.begin = .error report) :
      Course script plan (.error (.internal detail)) [.begin]
  /-- A reply ends the plan, and everything is rolled back. -/
  | stopped {done rest : List Statement} {s : Statement} {failure : Failure}
      (hbegin : script.begin = .ok ()) (hplan : plan = done ++ s :: rest)
      (hdone : Passed script 0 done) (hs : Stops s (script.reply done.length s) failure) :
      Course script plan (.error failure)
        (.begin :: ((done ++ [s]).map .execute ++ [.rollback]))
  /-- The commit fails, and everything is rolled back. -/
  | notCommitted {report : Report} {detail : String} (hbegin : script.begin = .ok ())
      (hplan : Passed script 0 plan) (hcommit : script.commit = .error report) :
      Course script plan (.error (.internal detail))
        (.begin :: (plan.map .execute ++ [.commit, .rollback]))
  /-- The whole plan is committed. -/
  | committed {a : α} (hbegin : script.begin = .ok ()) (hplan : Passed script 0 plan)
      (hcommit : script.commit = .ok ()) :
      Course script plan (.ok a) (.begin :: (plan.map .execute ++ [.commit]))

/-! ## What ends each write -/

theorem stops_couldNot {s : Statement} {what : String} {report : Report}
    (hname : s.writesRole = false) (hreference : s.insertsForUser = false) :
    Stops s (.error report) (couldNot what (.reported report)) :=
  .reported (fun h => Bool.noConfusion (hname.symm.trans h))
    fun h => Bool.noConfusion (hreference.symm.trans h)

theorem stops_roleNotWritten {s : Statement} {name : String} {report : Report}
    (hname : s.writesRole = true) (hreference : s.insertsForUser = false) :
    Stops s (.error report) (roleNotWritten name (.reported report)) := by
  unfold roleNotWritten
  dsimp only
  split
  · rename_i hcode
    exact .nameTaken hname hcode
  · rename_i hcode
    exact .reported (fun _ => hcode) fun h => Bool.noConfusion (hreference.symm.trans h)

theorem stops_userNotWritten {s : Statement} {what : String} {user : UserId} {report : Report}
    (hname : s.writesRole = false) (hreference : s.insertsForUser = true) :
    Stops s (.error report) (userNotWritten what user (.reported report)) := by
  unfold userNotWritten
  dsimp only
  split
  · rename_i hcode
    exact .referenceMissing hreference hcode
  · rename_i hcode
    exact .reported (fun h => Bool.noConfusion (hname.symm.trans h)) fun _ => hcode

section Bodies
variable {script : Script} {n : Nat} {α : Type} (role : RoleId) (user : UserId)

theorem performs_insertRoleGrants (grants : List Grant) :
    Performs script n (insertRoleGrants role grants) (grants.map (.insertRoleGrant role))
      fun _ => True :=
  performs_each rfl (fun _ _ => rfl) (fun _ _ => stops_couldNot rfl rfl) (fun _ _ => id) grants

theorem performs_insertUserGrants (grants : List Grant) :
    Performs script n (insertUserGrants user grants) (grants.map (.insertUserGrant user))
      fun _ => True :=
  performs_each rfl (fun _ _ => rfl) (fun _ _ => stops_userNotWritten rfl rfl) (fun _ _ => id)
    grants

theorem performs_insertUserRoles (roles : List RoleId) :
    Performs script n (insertUserRoles user roles) (roles.map (.insertUserRole user))
      fun _ => True :=
  performs_each rfl (fun _ _ => rfl) (fun _ _ => stops_userNotWritten rfl rfl) (fun _ _ => id)
    roles

/-- The rows of a role are replaced by deleting the old ones and inserting the new ones. -/
theorem performs_replaceGrants (grants : List Grant) :
    Performs script n (do clearRoleGrants role; insertRoleGrants role grants)
      (.deleteRoleGrants role :: grants.map (.insertRoleGrant role)) fun _ => True := by
  have hclear : Performs script n (clearRoleGrants role) [.deleteRoleGrants role]
      fun _ => True :=
    performs_plain (fun _ => stops_couldNot rfl rfl) (fun _ => id) fun _ => performs_pure trivial
  exact hclear.bind fun _ _ => performs_insertRoleGrants role grants

/-- **Every write carries out its plan** between the beginning and the end of its transaction. -/
theorem course_of_performs {body : Action α} {plan : List Statement} {Q : α → Prop}
    (h : Performs script 0 body plan Q) :
    Course script plan (script.run (transaction body).run).1
      (script.run (transaction body).run).2 := by
  have hrun : script.run (transaction body).run = ((script.after (transaction body) []).1,
      (script.after (transaction body) []).2.reverse) := rfl
  rw [hrun, Script.after_transaction]
  cases hbegin : script.begin with
  | error report => exact .notBegun hbegin
  | ok _ =>
    dsimp only
    rcases h [.begin] rfl with
      ⟨hplan, a, -, hafter⟩ | ⟨done, s, rest, failure, rfl, hdone, hs, hafter⟩
    · rw [hafter]
      dsimp only
      cases hcommit : script.commit with
      | ok _ => simpa using Course.committed (a := a) hbegin hplan hcommit
      | error report =>
        have hcourse : Course script plan
            (.error (couldNot "commit transaction" (.reported report)) : Except Failure α) _ :=
          .notCommitted hbegin hplan hcommit
        simpa using hcourse
    · rw [hafter]
      rw [Nat.zero_add] at hs
      simpa using Course.stopped hbegin rfl hdone hs

theorem Course.map {β : Type} {plan : List Statement} {result : Except Failure α}
    {sent : List Request} (g : α → β) (h : Course script plan result sent) :
    Course script plan (result.map g) sent := by
  cases h with
  | notBegun hbegin => exact .notBegun hbegin
  | stopped hbegin hplan hdone hs => exact .stopped hbegin hplan hdone hs
  | notCommitted hbegin hplan hcommit => exact .notCommitted hbegin hplan hcommit
  | committed hbegin hplan hcommit => exact .committed hbegin hplan hcommit

/-- The result of a write may be turned into another, for which nothing is sent. -/
theorem course_map {β : Type} {x : Action α} {plan : List Statement} (g : α → β)
    (h : Course script plan (script.run x.run).1 (script.run x.run).2) :
    Course script plan (script.run (x >>= fun a => pure (g a)).run).1
      (script.run (x >>= fun a => pure (g a)).run).2 := by
  have hrun : script.run (x >>= fun a => pure (g a)).run =
      ((script.run x.run).1.map g, (script.run x.run).2) := by
    show ((script.after (x >>= fun a => pure (g a)) []).1,
      (script.after (x >>= fun a => pure (g a)) []).2.reverse) =
      ((script.after x []).1.map g, (script.after x []).2.reverse)
    rw [Script.after_bind]
    rcases script.after x [] with ⟨failure | a, sent⟩ <;> rfl
  rw [hrun]
  exact h.map g

/-- A row that must be there is looked up first. -/
theorem performs_lock {s : Statement} {what missing : String} {f : Option s.Row → Action Unit}
    {plan : List Statement} (hs : s.asksForOwner = true) (hname : s.writesRole = false)
    (hreference : s.insertsForUser = false) (hrow : ∀ reply, s.LacksRow reply ↔ reply.rows = [])
    (hnone : f none = throw (Failure.notFound missing))
    (hsome : ∀ row, Performs script (n + 1) (f (some row)) plan fun _ => True) :
    Performs script n (fetchOptional s (couldNot what) >>= f) (s :: plan) fun _ => True := by
  rw [fetchOptional, bind_assoc]
  refine performs_execute (fun _ => stops_couldNot hname hreference) fun reply _ => ?_
  rw [pure_bind]
  cases hrows : reply.rows with
  | nil => exact .inl ⟨_, hnone, .ownerMissing hs ((hrow reply).mpr hrows)⟩
  | cons row rows =>
    refine .inr ⟨fun hlacks => ?_, hsome row⟩
    rw [hrow, hrows] at hlacks
    cases hlacks

/-- A statement that must concern a row. -/
theorem performs_affecting {s : Statement} {explain : QueryFault → Failure} {missing : String}
    {f : Nat → Action α} {plan : List Statement} {Q : α → Prop} (hs : s.asksForOwner = true)
    (hreport : ∀ report, Stops s (.error report) (explain (.reported report)))
    (hrow : ∀ reply, s.LacksRow reply ↔ reply.affected = 0)
    (hnone : f 0 = throw (Failure.notFound missing))
    (hsome : ∀ affected, affected ≠ 0 → Performs script (n + 1) (f affected) plan Q) :
    Performs script n (affecting s explain >>= f) (s :: plan) Q := by
  rw [affecting, bind_assoc]
  refine performs_execute hreport fun reply _ => ?_
  rw [pure_bind]
  by_cases hzero : reply.affected = 0
  · rw [hzero]
    exact .inl ⟨_, hnone, .ownerMissing hs ((hrow reply).mpr hzero)⟩
  · exact .inr ⟨fun hlacks => hzero ((hrow reply).mp hlacks), hsome _ hzero⟩

/-- The row of a new role is inserted, and what follows knows the number given to it. -/
theorem performs_insertRole (role : NewRole) :
    Performs script 0
      (fetchOne (.insertRole role.name role.displayName role.isPrivileged)
        (roleNotWritten role.name))
      [.insertRole role.name role.displayName role.isPrivileged]
      fun record => record.id = Write.given (.createRole role) script := by
  rw [fetchOne, fetchOptional, bind_assoc]
  refine performs_execute (fun _ => stops_roleNotWritten rfl rfl) fun reply hreply => ?_
  rw [pure_bind]
  cases hrows : reply.rows with
  | nil => exact .inl ⟨_, rfl, .nothingGiven rfl hrows⟩
  | cons record rows =>
    refine .inr ⟨fun hlacks => ?_, performs_pure ?_⟩
    · rw [Statement.LacksRow, hrows] at hlacks
      cases hlacks
    · rw [Write.given, hreply]
      simp [hrows]

end Bodies

namespace Write
variable {script : Script}

/-- **Every write goes one of the four ways.** -/
theorem course (w : Write) (script : Script) :
    Course script (w.plan (w.given script)) (w.result script) (w.sent script) := by
  cases w with
  | createRole role =>
    refine course_of_performs (Q := fun _ => True) ((performs_insertRole role).bind ?_)
    intro record hrecord
    have hinserts : Performs script 1 (do insertRoleGrants record.id role.grants; return record)
        (role.grants.map (.insertRoleGrant record.id) ++ []) fun _ => True :=
      (performs_insertRoleGrants record.id role.grants).bind fun _ _ => performs_pure trivial
    rw [List.append_nil, hrecord] at hinserts
    rw [hrecord]
    exact hinserts
  | updateRole role change =>
    refine course_of_performs (Q := fun _ => True) (performs_affecting rfl
      (fun _ => stops_roleNotWritten rfl rfl) (fun _ => .rfl) rfl fun affected hsome => ?_)
    rw [failIf_of_not hsome]
    rcases hgrants : change.grants? with _ | grants
    · simp only [clears, inserts, hgrants]
      exact performs_pure trivial
    · simp only [clears, inserts, hgrants]
      exact performs_replaceGrants role grants
  | replaceRoleGrants role grants =>
    exact course_of_performs (performs_lock rfl rfl rfl (fun _ => .rfl) rfl
      fun _ => performs_replaceGrants role grants)
  | deleteRole role =>
    refine course_map _ (course_of_performs (Q := fun _ => True) ?_)
    rw [fetchAll, bind_assoc]
    refine performs_plain (fun _ => stops_couldNot rfl rfl) (fun _ => id) fun _ => ?_
    rw [pure_bind]
    refine performs_affecting rfl (fun _ => stops_couldNot rfl rfl) (fun _ => .rfl) rfl
      fun affected hsome => ?_
    rw [failIf_of_not hsome]
    exact performs_pure trivial
  | replaceUserGrants user grants =>
    refine course_of_performs (performs_lock rfl rfl rfl (fun _ => .rfl) rfl fun _ => ?_)
    exact performs_plain (fun _ => stops_couldNot rfl rfl) (fun _ => id)
      fun _ => performs_insertUserGrants user grants
  | replaceUserRoles user roles =>
    exact course_of_performs (performs_plain (fun _ => stops_couldNot rfl rfl) (fun _ => id)
      fun _ => performs_insertUserRoles user roles)

end Write
end AccessControl.Database
