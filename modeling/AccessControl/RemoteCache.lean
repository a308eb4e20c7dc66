import AccessControl.Program.Backend

/-! # The cache on another machine

Values are cached by a server that several services may share.  Each service puts a text
of its own and a colon in front of its keys; with an empty text the keys are used as they
are.  The server is asked with commands of a few words.
-/
namespace AccessControl

namespace RemoteCache

/-- What the server may answer. -/
inductive Answer where
  | nothing
  | value (s : String)
  | number (n : Int)
  | okay
  | refused
  deriving DecidableEq, Repr

/-- What is asked of the server. -/
inductive Request where
  | connect
  | command (words : List String)
  deriving DecidableEq, Repr

/-- What comes back: whether there is a connection, or an answer to a command. -/
@[reducible] def Response : Request → Type
  | .connect => Bool
  | .command _ => Answer

end RemoteCache

/-- The requests to the server and what comes back. -/
@[reducible] def RemoteCache : Interface := ⟨RemoteCache.Request, RemoteCache.Response⟩

namespace RemoteCache

/-- A program on the server that ends in a result or in a failure. -/
abbrev Action (α : Type) : Type := ExceptT Failure (Program RemoteCache) α

/-- The key on the server, given the text that a service puts in front. -/
def keyOn (lead key : String) : String := if lead.isEmpty then key else lead ++ ":" ++ key

/-- Connects and gives a command. -/
def command (words : List String) : Action Answer := do
  let connected ← (Program.request (I := RemoteCache) .connect : Program RemoteCache Bool)
  failIf (!connected) (Failure.internal "failed to connect to redis")
  let answer ←
    (Program.request (I := RemoteCache) (.command words) : Program RemoteCache Answer)
  return answer

/-- A command for a cached value failed. -/
def couldNot (what key : String) : Failure :=
  .internal ("failed to " ++ what ++ " cache entry '" ++ key ++ "'")

/-- The value under a key; any other answer is a failure. -/
def get (lead key : String) : Action (Option String) := do
  match ← command ["GET", keyOn lead key] with
  | .nothing => return none
  | .value s => return some s
  | _ => throw (couldNot "read" key)

/-- Caches a value for some seconds; for no seconds nothing is asked.  Any answer that is
no refusal will do. -/
def set (lead key value : String) (seconds : UInt32) : Action Unit := do
  if seconds = 0 then
    return ()
  else
    match ← command ["SETEX", keyOn lead key, Decimal.text seconds.toNat, value] with
    | .refused => throw (couldNot "write" key)
    | _ => return ()

/-- Removes the value under a key. -/
def delete (lead key : String) : Action Unit := do
  match ← command ["DEL", keyOn lead key] with
  | .refused => throw (couldNot "delete" key)
  | _ => return ()

/-- The program that serves a request to the cache; other requests have none. -/
def serve? (lead : String) :
    (r : Backend.Request) → Option (Program RemoteCache (Backend.Answer r))
  | .cacheGet key => some (get lead key).run
  | .cacheSet key value seconds => some (set lead key value seconds).run
  | .cacheDelete key => some (delete lead key).run
  | _ => none

/-- A server that can be reached or not and gives one answer, and the commands given to
it. -/
structure Script where
  /-- Whether the server can be reached. -/
  reachable : Bool
  /-- Its answer. -/
  answer : Answer

/-- How each request is answered from a script; commands are kept, the latest first. -/
def Script.respond (script : Script) : (r : Request) → StateM (List (List String)) (Response r)
  | .connect => fun commands => (script.reachable, commands)
  | .command words => fun commands => (script.answer, words :: commands)

/-- Runs a program against a script and gives its result with the commands. -/
def Script.run {α : Type} (script : Script) (p : Program RemoteCache α) :
    α × List (List String) :=
  let (a, commands) := p.interpret script.respond []
  (a, commands.reverse)

end RemoteCache
end AccessControl
