/-! # Instants

An instant is a number of nanoseconds since the start of the year 1970.  Instants
lie in the years −262143 to 262142 of the calendar; adding a duration may lead out of
them (`Instant.add?`).
-/
namespace AccessControl

/-- The number of nanoseconds in a second. -/
def Instant.second : Int := 1000000000

/-- A point in time. -/
structure Instant where
  /-- Nanoseconds since the start of 1970. -/
  nanos : Int
  /-- No instant is before the year −262143. -/
  low : -8334601228800 * Instant.second ≤ nanos
  /-- No instant is after the year 262142. -/
  high : nanos < 8210266876800 * Instant.second
  deriving DecidableEq

namespace Instant

/-- The instant a number of nanoseconds after the start of 1970. -/
def ofNanos? (n : Int) : Option Instant :=
  if h : -8334601228800 * second ≤ n ∧ n < 8210266876800 * second then some ⟨n, h.1, h.2⟩
  else none

/-- The instant a number of microseconds after the start of 1970. -/
def ofMicros? (n : Int) : Option Instant := ofNanos? (n * 1000)

/-- The instant a number of seconds after another. -/
def add? (t : Instant) (seconds : Int) : Option Instant := ofNanos? (t.nanos + seconds * second)

/-- Whole seconds since the start of 1970; parts of a second do not count. -/
def seconds (t : Instant) : Int64 := Int64.ofInt (t.nanos / second)

/-- Whole microseconds since the start of 1970. -/
def micros (t : Instant) : Int := t.nanos / 1000

instance : LT Instant := ⟨fun s t => s.nanos < t.nanos⟩
instance : DecidableLT Instant := fun s t => inferInstanceAs (Decidable (s.nanos < t.nanos))

theorem lt_def {s t : Instant} : s < t ↔ s.nanos < t.nanos := Iff.rfl

end Instant
end AccessControl
