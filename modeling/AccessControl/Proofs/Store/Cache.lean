import AccessControl.Store.Cache

/-! # What a cache shows

All that is ever learnt of a cache is what it shows under a key at an instant
(`MemoryCache.seen`).  Asking, writing and removing change what is shown under their own key only,
then and later; in particular nobody notices when old values are swept out.
-/
namespace AccessControl

theorem Instant.lt_irrefl (t : Instant) : ¬t < t := Int.lt_irrefl t.nanos

namespace MemoryCache
variable {ν : Type} {c : MemoryCache ν} {now later : Instant} {key other : String} {value : ν}
  {seconds : UInt32}

/-- What is shown under a key at an instant. -/
def seen (c : MemoryCache ν) (now : Instant) (key : String) : Option ν := (c.get now key).1

/-- A value is shown until its deadline. -/
theorem seen_eq : c.seen now key =
    ((c.entries.find? key).filter fun entry => decide (now < entry.deadline)).map (·.value) := by
  rw [seen, get_eq]
  cases c.entries.find? key with
  | none => rfl
  | some entry =>
    by_cases hlive : now < entry.deadline
    · simp [Option.filter, hlive]
    · simp [Option.filter, hlive]

/-- A value whose deadline has come is not shown later either. -/
theorem not_lt_deadline (hlater : ¬later < now) {deadline : Instant} (h : ¬now < deadline) :
    ¬later < deadline := by
  rw [Instant.lt_def] at hlater h ⊢
  omega

/-- What is asked for at an instant is shown afterwards as before. -/
theorem seen_get (hlater : ¬later < now) :
    (c.get now other).2.seen later key = c.seen later key := by
  rw [get_eq]
  split
  · rfl
  · rename_i entry hentry
    split
    · rfl
    · rename_i hold
      rw [seen_eq, seen_eq, Table.find?_erase]
      split
      · rename_i hkey
        subst hkey
        simp [hentry, Option.filter, not_lt_deadline hlater hold]
      · rfl

theorem seen_delete :
    (c.delete other).seen now key = if key = other then none else c.seen now key := by
  rw [delete, seen_eq, seen_eq, Table.find?_erase]
  split <;> rfl

/-- A sweep is not noticed. -/
theorem seen_sweep (hlater : ¬later < now) : (c.sweep now).seen later key = c.seen later key := by
  rw [sweep, seen_eq, seen_eq, Table.find?_filter, Option.filter_filter]
  cases c.entries.find? key with
  | none => rfl
  | some entry =>
    by_cases hlive : now < entry.deadline
    · simp [Option.filter, hlive]
    · simp [Option.filter, hlive, not_lt_deadline hlater hlive]

/-- At an earlier instant a sweep shows what was shown when it was made. -/
theorem seen_sweep_of_lt (h : later < now) : (c.sweep now).seen later key = c.seen now key := by
  rw [sweep, seen_eq, seen_eq, Table.find?_filter, Option.filter_filter]
  cases c.entries.find? key with
  | none => rfl
  | some entry =>
    by_cases hlive : now < entry.deadline
    · have hlater : later < entry.deadline := by
        rw [Instant.lt_def] at h hlive ⊢
        omega
      simp [Option.filter, hlive, hlater]
    · simp [Option.filter, hlive]

/-- What is written for some time is shown until that is over; nothing else changes. -/
theorem seen_set (h : seconds ≠ 0) (hlater : ¬later < now) :
    (c.set now other value seconds).seen later key =
      if key = other then
        (some value).filter fun _ => decide (later < (now.add? (seconds.toNat : Int)).getD now)
      else c.seen later key := by
  rw [set, if_neg h, seen_eq]
  dsimp only
  rw [Table.find?_insert]
  by_cases hkey : key = other
  · rw [if_pos hkey, if_pos hkey]
    by_cases hlive : later < (now.add? (seconds.toNat : Int)).getD now
    · simp [Option.filter, hlive]
    · simp [Option.filter, hlive]
  · rw [if_neg hkey, if_neg hkey, ← seen_eq]
    have hcounted : seen { c with writes := c.writes + 1 } later key = c.seen later key := by
      rw [seen_eq, seen_eq]
    split
    · exact (seen_sweep hlater).trans hcounted
    · exact hcounted

theorem set_zero : c.set now key value 0 = c := if_pos rfl

/-! ## Caches that show the same -/

section
variable {c' : MemoryCache ν} (hlater : ¬later < now) (h : c'.seen later key = c.seen later key)
  (other : String) (value : ν)
include hlater h

theorem seen_get_congr :
    (c'.get now other).2.seen later key = (c.get now other).2.seen later key := by
  rw [seen_get hlater, seen_get hlater, h]

theorem seen_set_congr (seconds : UInt32) :
    (c'.set now other value seconds).seen later key =
      (c.set now other value seconds).seen later key := by
  by_cases hseconds : seconds = 0
  · rw [hseconds, set_zero, set_zero, h]
  · rw [seen_set hseconds hlater, seen_set hseconds hlater, h]

end

theorem seen_delete_congr {c' : MemoryCache ν} (h : c'.seen later key = c.seen later key)
    (other : String) : (c'.delete other).seen later key = (c.delete other).seen later key := by
  rw [seen_delete, seen_delete, h]

end MemoryCache
end AccessControl
