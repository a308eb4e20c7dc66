import AccessControl.Jwt.Signer
import AccessControl.Program.Backend
import AccessControl.Store.Basic
import AccessControl.Store.Cache

/-! # The outside in memory

A world is everything that services ask: a store and a cache in memory, a signer, a clock
that stands at an instant, and a supply of identifiers.  It answers each request and is
then another world (`World.answer`); a failed request leaves it as it was.
-/
namespace AccessControl

/-- What answers the requests of services. -/
structure World where
  store : Store
  cache : MemoryCache
  signer : Jwt.Signer
  now : Instant
  /-- The identifiers that can be given, by number. -/
  supply : Nat → Uuid
  /-- How many identifiers were given. -/
  drawn : Nat

namespace World

/-- Steps that change a world. -/
abbrev Step (α : Type) : Type := StateM World α

/-- Gives an identifier that was not given before. -/
def draw : Step Uuid := fun w => (w.supply w.drawn, { w with drawn := w.drawn + 1 })

/-- A write of the store that gives a value. -/
def writeGiving {α : Type} (f : Store → Except Failure (α × Store)) : Step (Except Failure α) :=
  fun w =>
    match f w.store with
    | .ok (a, store) => (.ok a, { w with store })
    | .error failure => (.error failure, w)

/-- A write of the store. -/
def write (f : Store → Except Failure Store) : Step (Except Failure Unit) :=
  writeGiving fun s => (f s).map (((), ·))

/-- A reading of the store. -/
def look {α : Type} (f : Store → α) : Step (Except Failure α) := fun w => (.ok (f w.store), w)

/-- How each request is answered. -/
def answer : (r : Backend.Request) → Step (Backend.Answer r)
  | .findRole role => look (·.findRole role)
  | .roleGrants role => look (·.grantsOfRole role)
  | .userGrants user => look (·.grantsOfUser user)
  | .userRoles user => look (·.rolesOfUser user)
  | .createRole role => writeGiving (·.createRole role)
  | .updateRole role change => write (·.updateRole role change)
  | .replaceRoleGrants role grants => write (·.replaceRoleGrants role grants)
  | .deleteRole role => writeGiving (·.deleteRole role)
  | .replaceUserGrants user grants => write (·.replaceUserGrants user grants)
  | .replaceUserRoles user roles => write (·.replaceUserRoles user roles)
  | .createToken record => write (·.createToken record)
  | .isTokenLive user key now => look (·.isTokenLive user key now)
  | .deleteToken user key => writeGiving (fun s => .ok (s.deleteToken user key))
  | .deleteTokens user => writeGiving (fun s => .ok (s.deleteTokens user))
  | .findStamp user => look (·.stampOf user)
  | .updateStamp user stamp => write (·.updateStamp user stamp)
  | .cacheGet key => fun w =>
    let (value?, cache) := w.cache.get w.now key
    (.ok value?, { w with cache })
  | .cacheSet key value seconds => fun w =>
    (.ok (), { w with cache := w.cache.set w.now key value seconds })
  | .cacheDelete key => fun w => (.ok (), { w with cache := w.cache.delete key })
  | .sign claims => fun w => (.ok (w.signer.sign claims), w)
  | .verify token => fun w => (w.signer.verify w.now token, w)
  | .now => fun w => (w.now, w)
  | .fresh => draw

/-- Stores a user with a stamp that was not given before. -/
def createUser (name : String) : Step (Except Failure (UserId × SecurityStamp)) := fun w =>
  let stamp := SecurityStamp.mk (w.supply w.drawn)
  match w.store.createUser name stamp with
  | .ok (user, store) => (.ok (user, stamp), { w with store, drawn := w.drawn + 1 })
  | .error failure => (.error failure, w)

/-- Runs a program. -/
def run {α : Type} (p : Program Backend α) : Step α := p.interpret answer

end World
end AccessControl
