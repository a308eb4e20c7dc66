import AccessControl.Cached.Access

/-! # Ending sessions

Revoking a token removes its record and that of the linked refresh token.  Rotating the
stamp of a user makes every token of the user worthless at once.
-/
namespace AccessControl.Session

/-- Removes the record of a token and what is cached of it, the latter also if the former
fails.  A record that is gone already is no failure. -/
def revokeKey (user : UserId) (key : TokenKey) : Service Unit := do
  let deleted ← Backend.outcome (Backend.deleteToken user key)
  Cached.remove (.tokenValidity user key)
  let _ ← Backend.conclude deleted

/-- Revokes keys one after the other, whether or not one fails, and then fails as the
first one that did. -/
def revokeKeys (user : UserId) : List TokenKey → Service Unit
  | [] => return ()
  | key :: keys => do
    let first ← Backend.outcome (revokeKey user key)
    let others ← Backend.outcome (revokeKeys user keys)
    Backend.conclude first
    Backend.conclude others

/-- Revokes a token of a user and the refresh token linked to it. -/
def revoke (user : UserId) (claims : Token.Claims) : Service Unit := do
  match claims.key with
  | .error rejection => throw (.rejected rejection)
  | .ok key => revokeKeys user (key :: claims.refreshKey.toList)

/-- Replaces the stamp of a user and removes all token records of the user.  What is
cached of the stamp is removed before the write, after it, and once the records are gone,
each time also if the step before failed. -/
def rotateStamp (user : UserId) : Service SecurityStamp := do
  let stamp := SecurityStamp.mk (← Backend.fresh)
  Cached.remove (.securityStamp user)
  let updated ← Backend.outcome (Backend.updateStamp user stamp)
  Cached.remove (.securityStamp user)
  Backend.conclude updated
  let deleted ← Backend.outcome (Backend.deleteTokens user)
  Cached.remove (.securityStamp user)
  let _ ← Backend.conclude deleted
  return stamp

end AccessControl.Session
