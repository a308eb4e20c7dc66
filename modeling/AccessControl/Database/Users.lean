import AccessControl.Database.Roles

/-! # Users and tokens in the database -/
namespace AccessControl.Database

/-- The code with which the database reports that something referred to is missing. -/
def foreignKeyViolation : String := "23503"

/-- Why something could not be stored for a user. -/
def userNotWritten (what : String) (user : UserId) (fault : QueryFault) : Failure :=
  let action := what ++ " for user '" ++ user.text ++ "'"
  match fault with
  | .reported report =>
    if report.code = foreignKeyViolation then
      .notFound ("failed to " ++ action ++ ": referenced user or role was not found")
    else couldNot action fault
  | .noRow => couldNot action fault

/-- The rows of a user. -/
def userGrants (user : UserId) : Action (List Grant) :=
  fetchAll (.selectUserGrants user) (couldNot "load user grants")

/-- The roles of a user. -/
def userRoles (user : UserId) : Action (List RoleId) :=
  fetchAll (.selectUserRoles user) (couldNot "load user roles")

/-- Stores rows of a user one after the other. -/
def insertUserGrants (user : UserId) : List Grant → Action Unit
  | [] => return ()
  | grant :: grants => do
    let _ ← execute (.insertUserGrant user grant) (userNotWritten "persist user grants" user)
    insertUserGrants user grants

/-- Replaces the rows of a user. -/
def replaceUserGrants (user : UserId) (grants : List Grant) : Action Unit :=
  transaction do
    match ← fetchOptional (.lockUser user) (couldNot "lock user") with
    | none => throw user.missing
    | some _ =>
      let _ ← execute (.deleteUserGrants user) (couldNot "clear user grants")
      insertUserGrants user grants

/-- Gives roles to a user one after the other. -/
def insertUserRoles (user : UserId) : List RoleId → Action Unit
  | [] => return ()
  | role :: roles => do
    let _ ← execute (.insertUserRole user role) (userNotWritten "assign roles" user)
    insertUserRoles user roles

/-- Replaces the roles of a user. -/
def replaceUserRoles (user : UserId) (roles : List RoleId) : Action Unit :=
  transaction do
    let _ ← execute (.deleteUserRoles user) (couldNot "clear user roles")
    insertUserRoles user roles

/-- The stamp of a user. -/
def findStamp (user : UserId) : Action (Option SecurityStamp) :=
  fetchOptional (.selectStamp user) (couldNot "load security stamp")

/-- Replaces the stamp of a user. -/
def updateStamp (user : UserId) (stamp : SecurityStamp) : Action Unit := do
  let affected ← affecting (.updateStamp user stamp) (couldNot "update security stamp")
  failIf (affected = 0) user.missing

/-- Stores the record of a token. -/
def createToken (record : Token.Record) : Action Unit := do
  let _ ← execute (.insertToken record.userId record.key record.expiresAt)
    (couldNot "persist token record")

/-- Whether there is a record of a token that holds beyond an instant. -/
def isTokenLive (user : UserId) (key : TokenKey) (now : Instant) : Action Bool :=
  fetchOne (.existsToken user key now) (couldNot "check token record")

/-- Removes the record of a token; the result is whether there was one. -/
def deleteToken (user : UserId) (key : TokenKey) : Action Bool := do
  let affected ← affecting (.deleteToken user key) (couldNot "delete token record")
  return affected ≠ 0

/-- Removes all token records of a user; the result is their number. -/
def deleteTokens (user : UserId) : Action Nat :=
  affecting (.deleteTokens user) (couldNot "delete token records for user")

end AccessControl.Database
