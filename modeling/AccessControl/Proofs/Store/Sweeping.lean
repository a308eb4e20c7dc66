import AccessControl.Proofs.Store.Cache
import AccessControl.Proofs.World.Unreliable
import Mathlib.Data.List.Induction
import Mathlib.Logic.Function.Basic

/-! # Sweeping is not noticed

A cache forgets old values when they are asked for and, every so many writes, all of them at
once.  Beside it stands a plain map that keeps whatever was written, with its deadline, and
never forgets (`MemoryCache.Kept`).  While the clock goes on, both tell the same: at an instant
that no reading so far has passed, each call keeps what the two show equal
(`MemoryCache.Call.shows_step`), and so do all of them (`MemoryCache.shows_after`).  What the
plain map holds under a key is what was last written there (`MemoryCache.kept_eq_some_iff`).
-/
namespace AccessControl
namespace MemoryCache
variable {ν : Type}

/-! ## Calls of a cache -/

/-- A call of the cache, with what the clock shows meanwhile. -/
inductive Call (ν : Type)
  /-- Asks for a value.  The deadline is compared at `now`, and at `later` once more before an old
  value is removed. -/
  | get (key : String) (now later : Instant)
  /-- Writes a value for some seconds. -/
  | set (key : String) (value : ν) (seconds : UInt32) (now : Instant)
  /-- Removes a value. -/
  | delete (key : String)
  deriving DecidableEq

namespace Call

/-- The readings of the clock in their order.  A call that need not look at the clock is given
readings all the same. -/
def readings : Call ν → List Instant
  | get _ now later => [now, later]
  | set _ _ _ now => [now]
  | delete _ => []

/-- What is told by a call, and the cache after it.  Only who asks is told something. -/
def step (c : MemoryCache ν) : Call ν → Option ν × MemoryCache ν
  | get key now later => c.lookUp now later key
  | set key value seconds now => (none, c.set now key value seconds)
  | delete key => (none, c.delete key)

/-- How a world answers a call that is made when the clock shows its first reading. -/
def answer (w : World) : Call String → Except Failure (Option String) × World
  | get key now _ => World.answer (.cacheGet key) { w with now }
  | set key value seconds now =>
    let (told, next) := World.answer (.cacheSet key value seconds) { w with now }
    (told.map fun _ => none, next)
  | delete key =>
    let (told, next) := World.answer (.cacheDelete key) w
    (told.map fun _ => none, next)

/-- Whether a call changes what is kept under a key. -/
def Touches (key : String) : Call ν → Prop
  | get .. => False
  | set other _ seconds _ => other = key ∧ seconds ≠ 0
  | delete other => other = key

end Call

/-- The cache after some calls. -/
def after (calls : List (Call ν)) (c : MemoryCache ν) : MemoryCache ν :=
  calls.foldl (fun c call => (call.step c).2) c

/-- No reading of the clock is before an earlier one. -/
def ClockGoesOn (calls : List (Call ν)) : Prop :=
  (calls.flatMap Call.readings).Pairwise fun earlier later => ¬later < earlier

instance {calls : List (Call ν)} : Decidable (ClockGoesOn calls) :=
  inferInstanceAs (Decidable (List.Pairwise _ _))

/-! ## The plain map -/

/-- Every value that was written and not removed, with its deadline. -/
abbrev Kept (ν : Type) : Type := String → Option (CacheEntry ν)

/-- The instant some seconds from now; the present, where the calendar ends before. -/
def deadline (now : Instant) (seconds : UInt32) : Instant :=
  (now.add? (seconds.toNat : Int)).getD now

namespace Kept

/-- Nothing was written. -/
def empty : Kept ν := fun _ => none

/-- The value under a key, if its deadline is still ahead. -/
def shows (m : Kept ν) (now : Instant) (key : String) : Option ν :=
  ((m key).filter fun entry => decide (now < entry.deadline)).map (·.value)

end Kept

namespace Call

/-- What is kept after a call. -/
def keep (m : Kept ν) : Call ν → Kept ν
  | get .. => m
  | set key value seconds now =>
    if seconds = 0 then m else Function.update m key (some ⟨value, deadline now seconds⟩)
  | delete key => Function.update m key none

/-- What the plain map tells. -/
def told (m : Kept ν) : Call ν → Option ν
  | get key now _ => m.shows now key
  | set .. => none
  | delete _ => none

end Call

/-- What is kept after some calls. -/
def Kept.after (calls : List (Call ν)) (m : Kept ν) : Kept ν := calls.foldl Call.keep m

/-- **What was last written** under a key for some time, and neither written over nor removed
since. -/
def LastWritten (calls : List (Call ν)) (key : String) (entry : CacheEntry ν) : Prop :=
  ∃ (earlier : List (Call ν)) (seconds : UInt32) (now : Instant) (since : List (Call ν)),
    calls = earlier ++ .set key entry.value seconds now :: since ∧ seconds ≠ 0 ∧
      entry.deadline = deadline now seconds ∧ ∀ call ∈ since, ¬call.Touches key

/-! ## What the plain map keeps -/

section
variable {m : Kept ν} {call : Call ν} {calls : List (Call ν)} {key : String}
  {entry : CacheEntry ν}

theorem Call.keep_of_not_touches (h : ¬call.Touches key) : call.keep m key = m key := by
  cases call with
  | get => rfl
  | set other value seconds now =>
    rw [keep]
    split
    · rfl
    · rename_i hseconds
      exact Function.update_of_ne (fun hkey => h ⟨hkey.symm, hseconds⟩) ..
  | delete other => exact Function.update_of_ne (fun hkey => h hkey.symm) ..

theorem Kept.after_of_not_touches (h : ∀ call ∈ calls, ¬call.Touches key) :
    Kept.after calls m key = m key := by
  induction calls generalizing m with
  | nil => rfl
  | cons call rest ih =>
    obtain ⟨hcall, hrest⟩ := List.forall_mem_cons.mp h
    exact (ih hrest).trans (Call.keep_of_not_touches hcall)

theorem Kept.after_concat : Kept.after (calls ++ [call]) m = call.keep (Kept.after calls m) :=
  List.foldl_append ..

/-- Every value that is kept was written last. -/
theorem lastWritten_of_kept (h : Kept.after calls .empty key = some entry) :
    LastWritten calls key entry := by
  induction calls using List.reverseRecOn with
  | nil => exact nomatch h
  | append_singleton calls call ih =>
    rw [Kept.after_concat] at h
    by_cases htouches : call.Touches key
    · cases call with
      | get => exact htouches.elim
      | set other value seconds now =>
        obtain ⟨rfl, hseconds⟩ := htouches
        rw [Call.keep, if_neg hseconds, Function.update_self, Option.some.injEq] at h
        subst h
        exact ⟨calls, seconds, now, [], rfl, hseconds, rfl, by simp⟩
      | delete other =>
        rw [Call.Touches] at htouches
        rw [htouches, Call.keep, Function.update_self] at h
        exact nomatch h
    · rw [Call.keep_of_not_touches htouches] at h
      obtain ⟨earlier, seconds, now, since, rfl, hseconds, hdeadline, hsince⟩ := ih h
      refine ⟨earlier, seconds, now, since ++ [call], by simp, hseconds, hdeadline, ?_⟩
      simpa [or_imp, forall_and] using ⟨hsince, htouches⟩

/-- **The plain map holds what was last written.** -/
theorem kept_eq_some_iff :
    Kept.after calls .empty key = some entry ↔ LastWritten calls key entry := by
  refine ⟨lastWritten_of_kept, ?_⟩
  rintro ⟨earlier, seconds, now, since, rfl, hseconds, hdeadline, hsince⟩
  rw [Kept.after, List.foldl_append, List.foldl_cons]
  refine (Kept.after_of_not_touches hsince).trans ?_
  rw [Call.keep, if_neg hseconds, Function.update_self, ← hdeadline]

theorem Kept.shows_eq_some_iff {now : Instant} {value : ν} :
    m.shows now key = some value ↔ ∃ deadline, m key = some ⟨value, deadline⟩ ∧ now < deadline := by
  simp only [shows, Option.map_eq_some_iff, Option.filter_eq_some_iff, decide_eq_true_eq]
  constructor
  · rintro ⟨entry, ⟨hkept, hahead⟩, rfl⟩
    exact ⟨entry.deadline, hkept, hahead⟩
  · rintro ⟨deadline, hkept, hahead⟩
    exact ⟨_, ⟨hkept, hahead⟩, rfl⟩

/-- What is shown after a value got its place. -/
theorem Kept.shows_update_some {other : String} {now : Instant} :
    Kept.shows (Function.update m other (some entry)) now key =
      if key = other then (some entry.value).filter fun _ => decide (now < entry.deadline)
      else m.shows now key := by
  rw [shows, Function.update_apply]
  split
  · by_cases hahead : now < entry.deadline <;> simp [Option.filter, hahead]
  · rfl

theorem Kept.shows_update_none {other : String} {now : Instant} :
    Kept.shows (Function.update m other none) now key =
      if key = other then none else m.shows now key := by
  rw [shows, Function.update_apply]
  split <;> rfl

end

/-! ## One call -/

section
variable {c : MemoryCache ν} {m : Kept ν} {call : Call ν} {now later t : Instant} {key : String}

/-- The second reading of the clock makes no difference while the clock goes on. -/
theorem lookUp_eq_get (h : ¬later < now) : c.lookUp now later key = c.get now key := by
  rw [get_eq, lookUp]
  split
  · rfl
  · rename_i entry hentry
    split
    · rfl
    · rename_i hold
      rw [evict, hentry]
      simp only [if_neg (not_lt_deadline h hold)]

theorem lookUp_fst : (c.lookUp now later key).1 = c.seen now key := by
  rw [seen, get_eq, lookUp]
  split
  · rfl
  · split <;> rfl

/-- **One call keeps what is shown equal**, at any instant that its readings have not passed. -/
theorem Call.shows_step (hclock : call.readings.Pairwise fun earlier later => ¬later < earlier)
    (ht : ∀ reading ∈ call.readings, ¬t < reading) (h : ∀ key, c.seen t key = m.shows t key) :
    (call.step c).2.seen t key = (call.keep m).shows t key := by
  cases call with
  | get other now later =>
    have hlater : ¬later < now := by simpa [readings] using hclock
    have hnow : ¬t < now := ht now (by simp [readings])
    rw [step, lookUp_eq_get hlater, seen_get hnow]
    exact h key
  | set other value seconds now =>
    have hnow : ¬t < now := ht now (by simp [readings])
    rw [step, keep]
    by_cases hseconds : seconds = 0
    · rw [hseconds, set_zero, if_pos rfl]
      exact h key
    · rw [seen_set hseconds hnow, if_neg hseconds, Kept.shows_update_some, h key]
      rfl
  | delete other => rw [step, seen_delete, keep, Kept.shows_update_none, h key]

/-- Both still show the same after some calls. -/
theorem shows_after {calls : List (Call ν)} (hclock : ClockGoesOn calls)
    (ht : ∀ reading ∈ calls.flatMap Call.readings, ¬t < reading)
    (h : ∀ key, c.seen t key = m.shows t key) :
    (after calls c).seen t key = (Kept.after calls m).shows t key := by
  induction calls generalizing c m with
  | nil => exact h key
  | cons call rest ih =>
    rw [ClockGoesOn, List.flatMap_cons, List.pairwise_append] at hclock
    rw [List.flatMap_cons, List.forall_mem_append] at ht
    exact ih hclock.2.1 ht.2 fun key => Call.shows_step hclock.1 ht.1 h

/-! ## The number of writes is never divided by zero -/

theorem Call.interval_step : (call.step c).2.interval = c.interval := by
  cases call with
  | get key now later =>
    rw [step, lookUp]
    split
    · rfl
    · split
      · rfl
      · rw [evict]
        split
        · rfl
        · split <;> rfl
  | set key value seconds now =>
    rw [step, MemoryCache.set]
    split
    · rfl
    · dsimp only
      split <;> rfl
  | delete key => rfl

theorem interval_after {calls : List (Call ν)} : (after calls c).interval = c.interval := by
  induction calls generalizing c with
  | nil => rfl
  | cons call rest ih => exact ih.trans Call.interval_step

theorem withInterval_interval_ne_zero {writes : UInt64} :
    (withInterval writes : MemoryCache ν).interval ≠ 0 := by
  show (if writes ≤ 1 then 1 else writes) ≠ 0
  split
  · decide
  · rename_i hmore
    rintro rfl
    exact hmore (by decide)

end

/-! ## What is told -/

/-- **What is to be said of a call** that is made of a cache after others. -/
structure Plain (c : MemoryCache ν) (before : List (Call ν)) (call : Call ν) : Prop where
  /-- It tells what the map tells that keeps everything. -/
  told : (call.step c).1 = call.told (Kept.after before .empty)
  /-- Who asks for a value is told what was last written, while its deadline is ahead. -/
  written : ∀ {key now later value}, call = .get key now later →
    ((call.step c).1 = some value ↔
      ∃ deadline, LastWritten before key ⟨value, deadline⟩ ∧ now < deadline)
  /-- The number of writes is not divided by zero. -/
  divisor : c.interval ≠ 0

/-- Whatever was called before, a call of the cache tells what the plain map tells. -/
theorem plain_after {interval : UInt64} {before : List (Call ν)} {call : Call ν}
    (hclock : ClockGoesOn (before ++ [call])) :
    Plain (after before (withInterval interval)) before call := by
  rw [ClockGoesOn, List.flatMap_append, List.flatMap_singleton, List.pairwise_append] at hclock
  obtain ⟨hbefore, -, hacross⟩ := hclock
  have htold : (call.step (after before (withInterval interval))).1 =
      call.told (Kept.after before .empty) := by
    cases call with
    | get key now later =>
      rw [Call.step, lookUp_fst]
      exact shows_after hbefore (fun reading hreading =>
        hacross reading hreading now (List.mem_cons_self ..)) fun key => rfl
    | set => rfl
    | delete => rfl
  refine ⟨htold, ?_, ?_⟩
  · rintro key now later value rfl
    rw [htold, Call.told, Kept.shows_eq_some_iff]
    simp only [kept_eq_some_iff]
  · rw [interval_after]
    exact withInterval_interval_ne_zero

/-- **A world never fails to answer a call of its cache**, which takes the step of the call. -/
theorem Call.answer_eq {w : World} {call : Call String} (hclock : ClockGoesOn [call]) :
    (call.answer w).1 = .ok (call.step w.cache).1 ∧
      (call.answer w).2.cache = (call.step w.cache).2 := by
  cases call with
  | get key now later =>
    have hlater : ¬later < now := by simpa [ClockGoesOn, readings] using hclock
    rw [step, lookUp_eq_get hlater]
    exact ⟨rfl, rfl⟩
  | set key value seconds now => exact ⟨rfl, rfl⟩
  | delete key => exact ⟨rfl, rfl⟩

/-- **Sweeping is invisible.**  Whatever was called before, and however often the cache sweeps, a
call tells what a map would tell that neither sweeps nor removes old values; and a world never
fails to answer a call. -/
theorem sweeping_is_invisible (interval : UInt64) :
    (∀ {ν : Type} (before : List (Call ν)) (call : Call ν), ClockGoesOn (before ++ [call]) →
      Plain (after before (withInterval interval)) before call) ∧
    ∀ (w : World) (call : Call String), ClockGoesOn [call] →
      (call.answer w).1 = .ok (call.step w.cache).1 ∧
        (call.answer w).2.cache = (call.step w.cache).2 :=
  ⟨fun _ _ hclock => plain_after hclock, fun _ _ hclock => Call.answer_eq hclock⟩

/-- The write that sweeps out the old value is told itself, by a cache that sweeps at each. -/
theorem written_is_told_after_sweep :
    let start : Instant := ⟨0, by decide, by decide⟩
    let next : Instant := ⟨2 * Instant.second, by decide, by decide⟩
    let before : List (Call String) := [.set "a" "1" 1 start, .set "b" "2" 60 next]
    let call : Call String := .get "b" next next
    let w := { World.ofStore Store.empty with cache := after before (withInterval 0) }
    ClockGoesOn (before ++ [call]) ∧ Plain w.cache before call ∧
      (call.answer w).1 = .ok (some "2") := by
  intro start next before call w
  have hclock : ClockGoesOn (before ++ [call]) := by decide
  have hplain : Plain w.cache before call := (sweeping_is_invisible 0).1 before call hclock
  have hanswer := ((sweeping_is_invisible 0).2 w call (by decide)).1
  exact ⟨hclock, hplain, hanswer.trans (congrArg Except.ok (hplain.told.trans rfl))⟩

end MemoryCache
end AccessControl
