import AccessControl.Data.Table
import AccessControl.Instant

/-! # The cache in memory

Every value is cached until a deadline.  A value past its deadline is not seen any more;
it is removed when it is asked for, and every so many writes all such values are removed.
What the values are does not matter to a cache; those of the service are texts.
-/
namespace AccessControl

/-- A cached value. -/
structure CacheEntry (ν : Type := String) where
  value : ν
  /-- From when on it is not seen. -/
  deadline : Instant
  deriving DecidableEq

/-- A cache that sweeps out old values from time to time. -/
structure MemoryCache (ν : Type := String) where
  entries : Table String (CacheEntry ν)
  /-- How many values were written. -/
  writes : UInt64
  /-- Every how many writes old values are swept out. -/
  interval : UInt64

namespace MemoryCache
variable {ν : Type}

/-- The empty cache that sweeps every so many writes, at the most at every one. -/
def withInterval (writes : UInt64) : MemoryCache ν := ⟨∅, 0, max writes 1⟩

/-- The empty cache of the service. -/
def empty : MemoryCache ν := withInterval 1024

instance : Inhabited (MemoryCache ν) := ⟨empty⟩

/-- The cache without the value under a key, if the deadline of that value has come. -/
def evict (c : MemoryCache ν) (now : Instant) (key : String) : MemoryCache ν :=
  match c.entries.find? key with
  | none => c
  | some entry =>
    if now < entry.deadline then c else { c with entries := c.entries.erase key }

/-- The value under a key, and the cache without it if its deadline has come.  The clock is
read once more before a value is removed. -/
def lookUp (c : MemoryCache ν) (now later : Instant) (key : String) : Option ν × MemoryCache ν :=
  match c.entries.find? key with
  | none => (none, c)
  | some entry =>
    if now < entry.deadline then (some entry.value, c) else (none, c.evict later key)

/-- The value under a key while the clock stands. -/
def get (c : MemoryCache ν) (now : Instant) (key : String) : Option ν × MemoryCache ν :=
  c.lookUp now now key

theorem get_eq {c : MemoryCache ν} {now : Instant} {key : String} : c.get now key =
    match c.entries.find? key with
    | none => (none, c)
    | some entry =>
      if now < entry.deadline then (some entry.value, c)
      else (none, { c with entries := c.entries.erase key }) := by
  rw [get, lookUp]
  split
  · rfl
  · rename_i entry hentry
    split
    · rfl
    · rename_i hold
      simp only [evict, hentry, if_neg hold]

/-- The cache without the values whose deadline has come. -/
def sweep (c : MemoryCache ν) (now : Instant) : MemoryCache ν :=
  { c with entries := c.entries.filter (fun _ entry => decide (now < entry.deadline)) }

/-- Puts a value under a key for some seconds; for no seconds nothing changes. -/
def set (c : MemoryCache ν) (now : Instant) (key : String) (value : ν) (seconds : UInt32) :
    MemoryCache ν :=
  if seconds = 0 then c
  else
    let deadline := (now.add? (seconds.toNat : Int)).getD now
    let counted := { c with writes := c.writes + 1 }
    let kept := if counted.writes % c.interval = 0 then counted.sweep now else counted
    { kept with entries := kept.entries.insert key ⟨value, deadline⟩ }

/-- Removes the value under a key. -/
def delete (c : MemoryCache ν) (key : String) : MemoryCache ν :=
  { c with entries := c.entries.erase key }

end MemoryCache
end AccessControl
