import AccessControl.Cached.Item
import AccessControl.Trial.Fault
import AccessControl.World

/-! # Running with faults

A trial is a world with faults.  While programs run in it, it counts the requests at each
point and notes every token signed and every stamp that was replaced.  A request that is
never answered ends the run where it stands (`none`); what was done before remains.
-/
namespace AccessControl.Trial

/-- Something that happened and that later steps may refer to. -/
inductive Note where
  /-- A token was signed. -/
  | signed (text : String) (claims : Token.Claims)
  /-- A stamp was written over another. -/
  | replaced (stamp : SecurityStamp)

end Trial

/-- A world with faults and a record of what happened in it. -/
structure Trial where
  world : World
  faults : List (Trial.Point × Trial.Fault)
  /-- The points of the requests made, the latest first. -/
  requests : List Trial.Point
  /-- What happened, the latest first. -/
  notes : List Trial.Note

namespace Trial

/-- Steps in a trial that may come to a stand. -/
abbrev Step (α : Type) : Type := OptionT (StateM Trial) α

/-- The trial of a world without faults. -/
def start (world : World) : Trial := ⟨world, [], [], []⟩

/-- Sets or clears the fault at a point. -/
def setFault (t : Trial) (point : Point) (fault? : Option Fault) : Trial :=
  let others := t.faults.filter (fun e => e.1 ≠ point)
  { t with faults := (fault?.map (point, ·)).toList ++ others }

/-- How many requests were made at a point. -/
def countAt (t : Trial) (point : Point) : Nat := t.requests.count point

/-- Runs a step of the world. -/
def within {α : Type} (step : World.Step α) : Step α :=
  OptionT.lift fun t =>
    let (a, world) := step t.world
    (a, { t with world })

/-- How many seconds an item cached by a fault stays. -/
def intruderSeconds : UInt32 := 3600

/-- Caches a stamp of a user, past the faults. -/
def cacheStamp (user : UserId) (stamp : SecurityStamp) : Step Unit :=
  within fun w =>
    let key := CacheKey.text (.securityStamp user)
    let value := Json.write (Cached.Stamp.mk user stamp)
    ((), { w with cache := w.cache.set w.now key value intruderSeconds })

/-- Notes something that happened. -/
def note (n : Note) : Step Unit :=
  OptionT.lift fun t => ((), { t with notes := n :: t.notes })

/-- What is to be noted of an answered request. -/
def noteOf? : (r : Backend.Request) → Backend.Answer r → Option Note
  | .sign claims, .ok text => some (.signed text claims)
  | .updateStamp _ stamp, .ok () => some (.replaced stamp)
  | _, _ => none

/-- Has a request answered by the world, and notes it. -/
def pass (r : Backend.Request) : Step (Backend.Answer r) := do
  let answer ← within (World.answer r)
  match noteOf? r answer with
  | some n =>
    note n
    return answer
  | none => return answer

/-- An answer, or no answer ever. -/
def orStall {α : Type} (a? : Option α) : Step α := OptionT.mk (pure a?)

/-- Answers a request at a point with a fault. -/
def answerWith (fault : Fault) (point : Point) (r : Backend.Request) :
    Step (Backend.Answer r) :=
  match fault with
  | .fails => orStall (failed (offline point) r)
  | .stalls => orStall none
  | .findsNothing =>
    match nothing r with
    | some answer => return answer
    | none => pass r
  | .cachesBefore user stamp => do
    cacheStamp user stamp
    pass r
  | .cachesAfter user stamp => do
    let answer ← pass r
    if succeeded r answer then
      cacheStamp user stamp
    return answer

/-- Counts a request at a point. -/
def count (point : Point) : Step Unit :=
  OptionT.lift fun t => ((), { t with requests := point :: t.requests })

/-- The fault at a point. -/
def faultAt (point : Point) : Step (Option Fault) :=
  OptionT.lift fun t => (t.faults.lookup point, t)

/-- How each request is answered. -/
def answer (r : Backend.Request) : Step (Backend.Answer r) :=
  match Point.of? r with
  | none => pass r
  | some point => do
    count point
    match ← faultAt point with
    | none => pass r
    | some fault => answerWith fault point r

/-- Runs a program. -/
def run {α : Type} (p : Program Backend α) : Step α := p.interpret answer

end Trial
end AccessControl
