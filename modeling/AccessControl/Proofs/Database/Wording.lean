import AccessControl.Database.Store
import AccessControl.Proofs.Http.ToldAlike

/-! # The wording of the database

A report of the database has a code and a wording.  Only the code decides what comes of it: by it a
taken name and a missing reference are recognized, and such a failure is worded without the report.
Where a failure takes up the wording of the report it is an internal one, and its wording is not
told.  So no explanation of a report tells clients anything of its wording (`Database.Tactful`), and
a program that serves a request to a store does the same, and tells clients the same, over two
databases that answer alike but for the wording of their reports (`Database.inStep_of_serve?`).
-/
namespace AccessControl.Database
open Program Http
variable {α : Type}

/-! ## Databases that word their reports differently -/

/-- **The same answer but for its wording**: a report has the same code. -/
inductive Reworded : Except Report α → Except Report α → Prop where
  | ok (a : α) : Reworded (.ok a) (.ok a)
  | error {report report' : Report} (h : report.code = report'.code) :
    Reworded (.error report) (.error report')

/-- Answers to a request that are the same but for their wording. -/
def Answer.Reworded : (r : Request) → Answer r → Answer r → Prop
  | .begin, a, b | .commit, a, b | .execute _, a, b => Database.Reworded a b
  | .rollback, a, b => a = b

/-- **Two scripts that differ in the wording of reports only.** -/
structure Script.Reworded (script script' : Script) : Prop where
  begin : Database.Reworded script.begin script'.begin
  commit : Database.Reworded script.commit script'.commit
  reply : ∀ n s, Database.Reworded (script.reply n s) (script'.reply n s)

theorem Script.Reworded.answer {script script' : Script} (h : script.Reworded script')
    (r : Request) :
    (Comparison.state Sent).Holds (Answer.Reworded r) (script.answer r) (script'.answer r) := by
  intro sent
  cases r with
  | begin => exact ⟨h.begin, rfl⟩
  | commit => exact ⟨h.commit, rfl⟩
  | rollback => exact ⟨rfl, rfl⟩
  | execute s => exact ⟨h.reply sent.statements s, rfl⟩

/-! ## Explanations -/

/-- An explanation of faults tells clients nothing of the wording of a report. -/
def Tactful (explain : QueryFault → Failure) : Prop :=
  ∀ report report' : Report, report.code = report'.code →
    ToldAlike (explain (.reported report)) (explain (.reported report'))

theorem tactful_couldNot (what : String) : Tactful (couldNot what) :=
  fun _ _ _ => toldAlike_internal _ _

theorem tactful_roleNotWritten (name : String) : Tactful (roleNotWritten name) := by
  intro report report' hcode
  simp only [roleNotWritten, hcode]
  split
  · exact rfl
  · exact tactful_couldNot _ report report' hcode

theorem tactful_userNotWritten (what : String) (user : UserId) :
    Tactful (userNotWritten what user) := by
  intro report report' hcode
  simp only [userNotWritten, hcode]
  split
  · exact rfl
  · exact tactful_couldNot _ report report' hcode

/-! ## Actions -/

/-- What an action does and what a client is told of it does not depend on how reports are
worded. -/
abbrev Discreet (x : Action α) : Prop := Http.Discreet (I := Database) Answer.Reworded x

theorem inStep_request (r : Request) :
    InStep (I := Database) Answer.Reworded (Answer.Reworded r) (request r) (request r) :=
  Program.inStep_request fun _ _ h => h

theorem discreet_attempt {p : Program Database (Except Report α)} {explain : QueryFault → Failure}
    (hp : InStep (I := Database) Answer.Reworded Reworded p p) (hexplain : Tactful explain) :
    Discreet (attempt p explain) := by
  refine hp.bind fun a b hab => ?_
  cases hab with
  | ok a => exact .done (.ok rfl)
  | error hcode => exact .done (.error (hexplain _ _ hcode))

section
variable {s : Statement} {explain : QueryFault → Failure} (hexplain : Tactful explain)
include hexplain

theorem discreet_execute : Discreet (execute s explain) :=
  discreet_attempt (inStep_request (.execute s)) hexplain

theorem discreet_fetchAll : Discreet (fetchAll s explain) :=
  (discreet_execute hexplain).bind fun _ => discreet_pure _

theorem discreet_fetchOptional : Discreet (fetchOptional s explain) :=
  (discreet_execute hexplain).bind fun _ => discreet_pure _

theorem discreet_fetchOne : Discreet (fetchOne s explain) := by
  refine (discreet_fetchOptional hexplain).bind fun row? => ?_
  cases row? with
  | none => exact discreet_throw _
  | some row => exact discreet_pure row

theorem discreet_affecting : Discreet (affecting s explain) :=
  (discreet_execute hexplain).bind fun _ => discreet_pure _

end

/-- **A transaction is discreet if its statements are**: in both runs it is committed or in both
rolled back. -/
theorem discreet_transaction {body : Action α} (hbody : Discreet body) :
    Discreet (transaction body) := by
  have hrollback := inStep_request .rollback
  refine (inStep_request .begin).bind fun begun begun' hbegun => ?_
  cases hbegun with
  | error hcode => exact .done (.error (tactful_couldNot _ _ _ hcode))
  | ok _ =>
    refine InStep.bind hbody fun ended ended' hended => ?_
    cases hended with
    | error htold => exact hrollback.bind fun _ _ _ => .done (.error htold)
    | ok hresult =>
      refine (inStep_request .commit).bind fun done done' hdone => ?_
      cases hdone with
      | ok _ => exact .done (.ok hresult)
      | error hcode =>
        exact hrollback.bind fun _ _ _ => .done (.error (tactful_couldNot _ _ _ hcode))

/-- A loop that executes one statement for each item is discreet. -/
theorem discreet_each {ι : Type} {loop : List ι → Action Unit} {statement : ι → Statement}
    {explain : QueryFault → Failure} (hnil : loop [] = pure ())
    (hcons : ∀ i rest, loop (i :: rest) = execute (statement i) explain >>= fun _ => loop rest)
    (hexplain : Tactful explain) (items : List ι) : Discreet (loop items) := by
  induction items with
  | nil =>
    rw [hnil]
    exact discreet_pure ()
  | cons i rest ih =>
    rw [hcons]
    exact (discreet_execute hexplain).bind fun _ => ih

/-! ## Roles -/

theorem discreet_findRole (role : RoleId) : Discreet (findRole role) :=
  discreet_fetchOptional (tactful_couldNot _)

theorem discreet_roleGrants (role : RoleId) : Discreet (roleGrants role) :=
  discreet_fetchAll (tactful_couldNot _)

theorem discreet_clearRoleGrants (role : RoleId) : Discreet (clearRoleGrants role) :=
  (discreet_execute (tactful_couldNot _)).bind fun _ => discreet_pure ()

theorem discreet_insertRoleGrants (role : RoleId) (grants : List Grant) :
    Discreet (insertRoleGrants role grants) :=
  discreet_each rfl (fun _ _ => rfl) (tactful_couldNot _) grants

theorem discreet_replacing (role : RoleId) (grants : List Grant) :
    Discreet (do clearRoleGrants role; insertRoleGrants role grants) :=
  (discreet_clearRoleGrants role).bind fun _ => discreet_insertRoleGrants role grants

theorem discreet_createRole (role : NewRole) : Discreet (createRole role) := by
  apply discreet_transaction
  refine (discreet_fetchOne (tactful_roleNotWritten role.name)).bind fun record => ?_
  exact (discreet_insertRoleGrants record.id role.grants).bind fun _ => discreet_pure record

theorem discreet_updateRole (role : RoleId) (change : RoleChange) :
    Discreet (updateRole role change) := by
  apply discreet_transaction
  refine (discreet_affecting (tactful_roleNotWritten change.name)).bind fun affected => ?_
  refine (discreet_check _).bind fun _ => ?_
  cases change.grants? with
  | none => exact discreet_pure ()
  | some grants => exact discreet_replacing role grants

theorem discreet_replaceRoleGrants (role : RoleId) (grants : List Grant) :
    Discreet (replaceRoleGrants role grants) := by
  apply discreet_transaction
  refine (discreet_fetchOptional (tactful_couldNot _)).bind fun locked => ?_
  cases locked with
  | none => exact discreet_throw _
  | some _ => exact discreet_replacing role grants

theorem discreet_deleteRole (role : RoleId) : Discreet (deleteRole role) := by
  have hbody : Discreet (transaction do
      let users ← fetchAll (.deleteAssignments role) (couldNot "remove role assignments")
      let affected ← affecting (.deleteRole role) (couldNot "delete role")
      failIf (affected = 0) (Role.missing role)
      return users) := by
    apply discreet_transaction
    refine (discreet_fetchAll (tactful_couldNot _)).bind fun users => ?_
    refine (discreet_affecting (tactful_couldNot _)).bind fun affected => ?_
    exact (discreet_check _).bind fun _ => discreet_pure users
  exact hbody.bind fun _ => discreet_pure _

/-! ## Users and tokens -/

theorem discreet_userGrants (user : UserId) : Discreet (userGrants user) :=
  discreet_fetchAll (tactful_couldNot _)

theorem discreet_userRoles (user : UserId) : Discreet (userRoles user) :=
  discreet_fetchAll (tactful_couldNot _)

theorem discreet_replaceUserGrants (user : UserId) (grants : List Grant) :
    Discreet (replaceUserGrants user grants) := by
  apply discreet_transaction
  refine (discreet_fetchOptional (tactful_couldNot _)).bind fun locked => ?_
  cases locked with
  | none => exact discreet_throw _
  | some _ =>
    refine (discreet_execute (tactful_couldNot _)).bind fun _ => ?_
    exact discreet_each rfl (fun _ _ => rfl) (tactful_userNotWritten _ user) grants

theorem discreet_replaceUserRoles (user : UserId) (roles : List RoleId) :
    Discreet (replaceUserRoles user roles) := by
  apply discreet_transaction
  refine (discreet_execute (tactful_couldNot _)).bind fun _ => ?_
  exact discreet_each rfl (fun _ _ => rfl) (tactful_userNotWritten _ user) roles

theorem discreet_findStamp (user : UserId) : Discreet (findStamp user) :=
  discreet_fetchOptional (tactful_couldNot _)

theorem discreet_updateStamp (user : UserId) (stamp : SecurityStamp) :
    Discreet (updateStamp user stamp) :=
  (discreet_affecting (tactful_couldNot _)).bind fun _ => discreet_check _

theorem discreet_createToken (record : Token.Record) : Discreet (createToken record) :=
  (discreet_execute (tactful_couldNot _)).bind fun _ => discreet_pure ()

theorem discreet_isTokenLive (user : UserId) (key : TokenKey) (now : Instant) :
    Discreet (isTokenLive user key now) := discreet_fetchOne (tactful_couldNot _)

theorem discreet_deleteToken (user : UserId) (key : TokenKey) :
    Discreet (deleteToken user key) :=
  (discreet_affecting (tactful_couldNot _)).bind fun _ => discreet_pure _

theorem discreet_deleteTokens (user : UserId) : Discreet (deleteTokens user) :=
  discreet_affecting (tactful_couldNot _)

/-- **Every request to a store is served so that the wording of the database reaches no client.** -/
theorem inStep_of_serve? : {r : Backend.Request} → {p : Program Database (Backend.Answer r)} →
    serve? r = some p → InStep (I := Database) Answer.Reworded (Backend.Answer.Alike r) p p
  | .findRole role, _, rfl => discreet_findRole role
  | .roleGrants role, _, rfl => discreet_roleGrants role
  | .userGrants user, _, rfl => discreet_userGrants user
  | .userRoles user, _, rfl => discreet_userRoles user
  | .createRole role, _, rfl => discreet_createRole role
  | .updateRole role change, _, rfl => discreet_updateRole role change
  | .replaceRoleGrants role grants, _, rfl => discreet_replaceRoleGrants role grants
  | .deleteRole role, _, rfl => discreet_deleteRole role
  | .replaceUserGrants user grants, _, rfl => discreet_replaceUserGrants user grants
  | .replaceUserRoles user roles, _, rfl => discreet_replaceUserRoles user roles
  | .createToken record, _, rfl => discreet_createToken record
  | .isTokenLive user key now, _, rfl => discreet_isTokenLive user key now
  | .deleteToken user key, _, rfl => discreet_deleteToken user key
  | .deleteTokens user, _, rfl => discreet_deleteTokens user
  | .findStamp user, _, rfl => discreet_findStamp user
  | .updateStamp user stamp, _, rfl => discreet_updateStamp user stamp

end AccessControl.Database
