import AccessControl.Database.Users

/-! # The store in a database

Every request to a store is served by a program on the database, and every program on the
database can be run against prepared answers (`Script`), which also keeps what was sent.
-/
namespace AccessControl.Database

/-- The program that serves a request to a store; other requests have none. -/
def serve? : (r : Backend.Request) → Option (Program Database (Backend.Answer r))
  | .findRole role => some (findRole role).run
  | .roleGrants role => some (roleGrants role).run
  | .userGrants user => some (userGrants user).run
  | .userRoles user => some (userRoles user).run
  | .createRole role => some (createRole role).run
  | .updateRole role change => some (updateRole role change).run
  | .replaceRoleGrants role grants => some (replaceRoleGrants role grants).run
  | .deleteRole role => some (deleteRole role).run
  | .replaceUserGrants user grants => some (replaceUserGrants user grants).run
  | .replaceUserRoles user roles => some (replaceUserRoles user roles).run
  | .createToken record => some (createToken record).run
  | .isTokenLive user key now => some (isTokenLive user key now).run
  | .deleteToken user key => some (deleteToken user key).run
  | .deleteTokens user => some (deleteTokens user).run
  | .findStamp user => some (findStamp user).run
  | .updateStamp user stamp => some (updateStamp user stamp).run
  | _ => none

/-- Prepared answers: to the beginning, to the commit, and to each statement by its number. -/
structure Script where
  /-- The answer to the beginning of a transaction. -/
  begin : Except Report Unit
  /-- The answer to a commit. -/
  commit : Except Report Unit
  /-- The answer to a statement, given how many statements came before. -/
  reply : Nat → (s : Statement) → Except Report (Reply s.Row)

/-- What was sent so far, the latest first. -/
abbrev Sent : Type := List Request

/-- The number of statements among what was sent. -/
def Sent.statements (sent : Sent) : Nat :=
  sent.countP (fun r => r matches .execute _)

/-- How each request is answered from a script. -/
def Script.answer (script : Script) : (r : Request) → StateM Sent (Answer r)
  | .begin => fun sent => (script.begin, .begin :: sent)
  | .commit => fun sent => (script.commit, .commit :: sent)
  | .rollback => fun sent => ((), .rollback :: sent)
  | .execute s => fun sent => (script.reply sent.statements s, .execute s :: sent)

/-- Runs a program against a script and gives its result with all that was sent. -/
def Script.run {α : Type} (script : Script) (p : Program Database α) : α × List Request :=
  let (a, sent) := p.interpret script.answer []
  (a, sent.reverse)

end AccessControl.Database
