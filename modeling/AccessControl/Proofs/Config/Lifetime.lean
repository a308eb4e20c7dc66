import AccessControl.Config.Load
import AccessControl.Proofs.Program.Transcript
import AccessControl.Proofs.Text.Decimal
import AccessControl.Proofs.Text.Uuid
import AccessControl.Session.Issue
import Mathlib.Logic.Function.Basic

/-! # Lifetimes and the end of the calendar

Two bounds are put on a lifetime, at different times and in different places.  The configuration
accepts it if it is positive and at most `Config.maxLifetime`, which is a bound for durations.  A
token that is issued later expires after the lifetime, and this must be an instant; if it is not,
issuing aborts (`Session.Aborts`).  The calendar ends about a thousand times sooner than durations
do, so the first bound does not give the second.

`Instant.add?_eq_none_iff` says when a duration leads out of the calendar, and `lifetime_of_load`
what an accepted configuration says of its lifetimes.
-/
namespace AccessControl

namespace Instant
variable {t : Instant} {seconds : Int}

/-- The seconds from the start of 1970 to the end of the calendar. -/
def calendarEnd : Int := 8210266876800

/-- The seconds from the start of 1970 to the end of the year 3000. -/
def eraEnd : Int := 32535216000

/-- **An instant of the years 1970 to 3000.** -/
def InEra (t : Instant) : Prop := 0 ≤ t.nanos ∧ t.nanos < eraEnd * second

/-- The last instant of the year 3000. -/
def lastOfEra : Instant := ⟨eraEnd * second - 1, by decide, by decide⟩

theorem nanos_lastOfEra : lastOfEra.nanos = eraEnd * second - 1 := rfl

theorem inEra_lastOfEra : lastOfEra.InEra := ⟨by decide, by decide⟩

/-- **A duration leads out of the calendar if it leads to its end or beyond.** -/
theorem add?_eq_none_iff (hseconds : 0 ≤ seconds) :
    t.add? seconds = none ↔ calendarEnd * second ≤ t.nanos + seconds * second := by
  have hlow := t.low
  rw [add?, ofNanos?]
  split
  · rename_i hfits
    refine iff_of_false (fun h => nomatch h) ?_
    unfold calendarEnd
    omega
  · rename_i hfits
    refine iff_of_true rfl ?_
    unfold calendarEnd
    unfold second at hlow hfits ⊢
    omega

/-- **A duration leads out of the calendar at no instant of the era if it is not longer than the
time from the end of the era to the end of the calendar.** -/
theorem add?_of_inEra_iff (hseconds : 0 ≤ seconds) :
    (∀ t : Instant, t.InEra → t.add? seconds ≠ none) ↔ seconds ≤ calendarEnd - eraEnd := by
  constructor
  · -- At the last instant of the era the duration is put to the test.
    intro h
    have hlast := h lastOfEra inEra_lastOfEra
    rw [Ne, add?_eq_none_iff hseconds, nanos_lastOfEra] at hlast
    unfold second eraEnd calendarEnd at *
    omega
  · intro h t ht hnone
    rw [add?_eq_none_iff hseconds] at hnone
    have hend := ht.2
    unfold second eraEnd calendarEnd at *
    omega

end Instant

namespace Session
open Program
variable {d : Deployment} {subject : Token.Subject} {kind : Token.Kind}
  {refreshKey : Option TokenKey} {key : Uuid} {issuedAt : Instant}

/-- What issuing does once a key was drawn and the clock was read. -/
def issueAt (d : Deployment) (subject : Token.Subject) (kind : Token.Kind)
    (refreshKey : Option TokenKey) (key : Uuid) (issuedAt : Instant) : Service Token.Issued :=
  match issuedAt.add? (d.tokens.lifetime kind) with
  | none => throw expiryOutOfRange
  | some expiresAt => do
    let tokenId ← Backend.fresh
    let text ← Backend.sign
      (claimsFor d.tokens subject kind refreshKey ⟨key⟩ tokenId issuedAt expiresAt)
    Backend.createToken ⟨subject.userId, ⟨key⟩, expiresAt⟩
    Cached.store d.cacheSeconds (Cached.LiveToken.mk subject.userId ⟨key⟩)
    return ⟨text, ⟨key⟩, d.tokens.lifetime kind⟩

/-- **Issuing draws a key and reads the clock, and all else depends on these.** -/
theorem run_issue_eq :
    (issue d subject kind refreshKey).run = .call .fresh fun key => .call .now fun issuedAt =>
      (issueAt d subject kind refreshKey key issuedAt).run := rfl

/-- **Issuing aborts at an instant**: after the clock was read nothing is signed or stored, for
there is no expiry that the token could have. -/
def Aborts (d : Deployment) (subject : Token.Subject) (kind : Token.Kind)
    (refreshKey : Option TokenKey) (key : Uuid) (issuedAt : Instant) : Prop :=
  (issue d subject kind refreshKey).run.Transcript [⟨.fresh, key⟩, ⟨.now, issuedAt⟩]
    (.error expiryOutOfRange)

/-- **Issuing comes through at an instant**: if nothing else fails, the token is signed, its
record is stored, and it is cached. -/
def ComesThrough (d : Deployment) (subject : Token.Subject) (kind : Token.Kind)
    (refreshKey : Option TokenKey) (key : Uuid) (issuedAt : Instant) : Prop :=
  ∃ expiresAt, issuedAt.add? (d.tokens.lifetime kind) = some expiresAt ∧ ∀ tokenId text,
    (issue d subject kind refreshKey).run.Transcript
      [⟨.fresh, key⟩, ⟨.now, issuedAt⟩, ⟨.fresh, tokenId⟩,
        ⟨.sign (claimsFor d.tokens subject kind refreshKey ⟨key⟩ tokenId issuedAt expiresAt),
          .ok text⟩,
        ⟨.createToken ⟨subject.userId, ⟨key⟩, expiresAt⟩, .ok ()⟩,
        ⟨.cacheSet (CacheKey.tokenValidity subject.userId ⟨key⟩).text
          (Json.write (Cached.LiveToken.mk subject.userId ⟨key⟩)) d.cacheSeconds, .ok ()⟩]
      (.ok ⟨text, ⟨key⟩, d.tokens.lifetime kind⟩)

/-- **Issuing aborts if the lifetime leads out of the calendar.** -/
theorem aborts_iff :
    Aborts d subject kind refreshKey key issuedAt ↔
      issuedAt.add? (d.tokens.lifetime kind) = none := by
  rw [Aborts, run_issue_eq]
  constructor
  · intro h
    cases h with
    | call h =>
      cases h with
      | call h =>
        cases hexpiry : issuedAt.add? (d.tokens.lifetime kind) with
        | none => rfl
        | some expiresAt =>
          -- There is an expiry, so an identifier is still asked for.
          have hafter : (issueAt d subject kind refreshKey key issuedAt).run.Transcript []
            (.error expiryOutOfRange) := h
          rw [issueAt, hexpiry] at hafter
          nomatch hafter
  · intro hnone
    refine .call (.call ?_)
    rw [issueAt, hnone]
    exact .done _

/-- **Issuing comes through if the lifetime leads to an instant.** -/
theorem comesThrough_iff :
    ComesThrough d subject kind refreshKey key issuedAt ↔
      issuedAt.add? (d.tokens.lifetime kind) ≠ none := by
  constructor
  · rintro ⟨expiresAt, hexpiry, -⟩
    simp [hexpiry]
  · intro hsome
    obtain ⟨expiresAt, hexpiry⟩ := Option.ne_none_iff_exists'.mp hsome
    refine ⟨expiresAt, hexpiry, fun tokenId text => ?_⟩
    rw [run_issue_eq]
    refine .call (.call ?_)
    rw [issueAt, hexpiry]
    exact .call (.call (.call (.call (.done _))))

end Session

namespace Config
open Session
variable {env : Environment} {c : Config} {name : String} {default n : Int}

/-! ## Which lifetimes are accepted -/

theorem lifetime_eq_ok (h : lifetime env name default = .ok n) : 0 < n ∧ n ≤ maxLifetime := by
  rw [lifetime, Except.bind_eq_ok_iff] at h
  obtain ⟨_, -, h⟩ := h
  rw [Except.bind_eq_ok_iff] at h
  obtain ⟨_, hpositive, h⟩ := h
  rw [Except.bind_eq_ok_iff] at h
  obtain ⟨_, hbounded, h⟩ := h
  obtain rfl := Except.pure_eq_ok_iff.mp h
  exact ⟨Int.not_le.mp (failIf_eq_ok_iff.mp hpositive),
    Int.not_lt.mp (failIf_eq_ok_iff.mp hbounded)⟩

/-- A number within the bounds is read as it is written. -/
theorem number_of_text {bounds : Decimal.Bounds} (hvalue : env name = some (Decimal.text n))
    (hlow : bounds.low ≤ 0) (hhigh : 0 ≤ bounds.high) (hn : bounds.low ≤ n)
    (hn' : n ≤ bounds.high) : number env bounds name default = .ok n := by
  rw [number, hvalue]
  simp only
  rw [Decimal.text, String.toList_ofList,
    trimChars_eq_self (fun c hc => isBlank_eq_false_of_mem_ofInt hc),
    Decimal.read_ofInt hlow hhigh hn hn']

/-- A lifetime that is positive and not too long is accepted as it is written. -/
theorem lifetime_of_text (hvalue : env name = some (Decimal.text n)) (hn : 0 < n)
    (hn' : n ≤ maxLifetime) : lifetime env name default = .ok n := by
  have hlow : Decimal.Bounds.signed64.low ≤ n := by
    show -9223372036854775808 ≤ n
    omega
  have hhigh : n ≤ Decimal.Bounds.signed64.high := by
    unfold maxLifetime at hn'
    show n ≤ 9223372036854775807
    omega
  rw [lifetime, number_of_text hvalue (by decide) (by decide) hlow hhigh]
  show (failIf (n ≤ 0) _ >>= _) = _
  rw [failIf_of_not (Int.not_le.mpr hn)]
  show (failIf (maxLifetime < n) _ >>= _) = _
  rw [failIf_of_not (Int.not_lt.mpr hn')]
  rfl

/-- The name of the text that sets the lifetime of a kind of tokens. -/
def lifetimeName : Token.Kind → String
  | .access => "ACCESS_TOKEN_TTL_SECONDS"
  | .refresh => "REFRESH_TOKEN_TTL_SECONDS"

/-- An environment with another lifetime for a kind of tokens. -/
def settingLifetime (env : Environment) (kind : Token.Kind) (n : Int) : Environment :=
  Function.update env (lifetimeName kind) (some (Decimal.text n))

theorem settingLifetime_self (kind : Token.Kind) :
    settingLifetime env kind n (lifetimeName kind) = some (Decimal.text n) :=
  Function.update_self ..

theorem settingLifetime_of_ne {kind : Token.Kind} (h : name ≠ lifetimeName kind) :
    settingLifetime env kind n name = env name :=
  Function.update_of_ne h ..

/-- **The lifetimes of an accepted configuration have passed their check.** -/
theorem lifetime_of_load (h : load env = .ok c) (kind : Token.Kind) :
    0 < c.tokens.lifetime kind ∧ c.tokens.lifetime kind ≤ maxLifetime := by
  simp only [load, Except.bind_eq_ok_iff] at h
  obtain ⟨_, -, _, -, _, -, _, -, _, -, _, -, access, haccess, refresh, hrefresh, _, -, h⟩ := h
  obtain rfl := Except.pure_eq_ok_iff.mp h
  cases kind with
  | access => exact lifetime_eq_ok haccess
  | refresh => exact lifetime_eq_ok hrefresh

/-- **Every lifetime that passes the check is accepted where another one was.** -/
theorem load_settingLifetime (h : load env = .ok c) (kind : Token.Kind) (hn : 0 < n)
    (hn' : n ≤ maxLifetime) :
    ∃ c', load (settingLifetime env kind n) = .ok c' ∧ c'.tokens.lifetime kind = n := by
  simp only [load, Except.bind_eq_ok_iff] at h ⊢
  obtain ⟨_, h₁, _, h₂, _, h₃, _, h₄, _, h₅, _, h₆, _, haccess, _, hrefresh, _, h₇, -⟩ := h
  -- What is read under the other names is what was read before.
  cases kind with
  | access =>
    have hset : settingLifetime env .access n "ACCESS_TOKEN_TTL_SECONDS" = some (Decimal.text n) :=
      settingLifetime_self .access
    have hother : ∀ name, name ≠ "ACCESS_TOKEN_TTL_SECONDS" →
        settingLifetime env .access n name = env name := fun _ h => settingLifetime_of_ne h
    simp only [lifetime_of_text hset hn hn']
    simp only [required, cachePlaceOf, cacheUrlOf, number, lifetime] at *
    simp (disch := decide) only [hother]
    exact ⟨_, ⟨_, h₁, _, h₂, _, h₃, _, h₄, _, h₅, _, h₆, _, rfl, _, hrefresh, _, h₇, rfl⟩, rfl⟩
  | refresh =>
    have hset : settingLifetime env .refresh n "REFRESH_TOKEN_TTL_SECONDS" = some (Decimal.text n) :=
      settingLifetime_self .refresh
    have hother : ∀ name, name ≠ "REFRESH_TOKEN_TTL_SECONDS" →
        settingLifetime env .refresh n name = env name := fun _ h => settingLifetime_of_ne h
    simp only [lifetime_of_text hset hn hn']
    simp only [required, cachePlaceOf, cacheUrlOf, number, lifetime] at *
    simp (disch := decide) only [hother]
    exact ⟨_, ⟨_, h₁, _, h₂, _, h₃, _, h₄, _, h₅, _, h₆, _, haccess, _, rfl, _, h₇, rfl⟩, rfl⟩

/-! ## Which of them can be used -/

/-- The longest lifetime with which issuing aborts at no instant of the years 1970 to 3000. -/
def longestSafe : Int := Instant.calendarEnd - Instant.eraEnd

/-- **Which accepted configurations can issue tokens.**  The lifetimes that are accepted are those
from one second to `maxLifetime`.  Issuing aborts at exactly those instants from which the
lifetime leads to the end of the calendar or beyond, and comes through at all others.  So it comes
through at every instant of the years 1970 to 3000 if and only if the lifetime is at most
`longestSafe`, which the configuration does not ask for. -/
theorem issuing_comes_through_iff (h : load env = .ok c) {d : Deployment}
    (hd : d.tokens = c.tokens) (subject : Token.Subject) (kind : Token.Kind)
    (refreshKey : Option TokenKey) (key : Uuid) :
    (0 < c.tokens.lifetime kind ∧ c.tokens.lifetime kind ≤ maxLifetime) ∧
    (∀ n, 0 < n → n ≤ maxLifetime →
      ∃ c', load (settingLifetime env kind n) = .ok c' ∧ c'.tokens.lifetime kind = n) ∧
    (∀ issuedAt, Aborts d subject kind refreshKey key issuedAt ↔
      Instant.calendarEnd * Instant.second ≤
        issuedAt.nanos + c.tokens.lifetime kind * Instant.second) ∧
    (∀ issuedAt, ComesThrough d subject kind refreshKey key issuedAt ↔
      ¬Aborts d subject kind refreshKey key issuedAt) ∧
    ((∀ issuedAt, issuedAt.InEra → ComesThrough d subject kind refreshKey key issuedAt) ↔
      c.tokens.lifetime kind ≤ longestSafe) := by
  have hlifetime := lifetime_of_load h kind
  have hnonneg := Int.le_of_lt hlifetime.1
  refine ⟨hlifetime, fun n => load_settingLifetime h kind, fun issuedAt => ?_, fun issuedAt => ?_,
    ?_⟩
  · rw [aborts_iff, hd, Instant.add?_eq_none_iff hnonneg]
  · rw [comesThrough_iff, aborts_iff]
  · simp only [comesThrough_iff, hd]
    exact Instant.add?_of_inEra_iff hnonneg

/-- An environment in which only what is needed is set. -/
def bare : Environment
  | "DATABASE_URL" => some "postgres://localhost/warden"
  | "JWT_SECRET" => some "0123456789abcdef0123456789abcdef"
  | _ => none

/-- The configuration where nothing more is set: access tokens last a day. -/
def bareConfig : Config where
  databaseUrl := "postgres://localhost/warden"
  cacheUrl? := none
  cachePlace := .memory
  cacheLead := "warden"
  cacheSeconds := 3600
  secret := "0123456789abcdef0123456789abcdef"
  tokens := {}
  deadlineMillis := 5000
  site := "http://localhost:3000"
  host := "127.0.0.1"
  hostNumber := 3001

theorem load_bare : load bare = .ok bareConfig := rfl

/-- A subject for whom tokens are issued. -/
def someone : Token.Subject := ⟨⟨1⟩, ⟨.repeating 0⟩⟩

/-- With lifetimes that are not set, issuing comes through at every instant of the era. -/
theorem issuing_comes_through_in_bare :
    load bare = .ok bareConfig ∧ ∀ issuedAt : Instant, issuedAt.InEra →
      ComesThrough ⟨.empty, 3600, bareConfig.tokens⟩ someone .access none (.repeating 1)
        issuedAt := by
  obtain ⟨-, -, -, -, hera⟩ := issuing_comes_through_iff load_bare
    (d := ⟨.empty, 3600, bareConfig.tokens⟩) rfl someone .access none (.repeating 1)
  exact ⟨load_bare, hera.mpr (by decide)⟩

/-- The same environment, but access tokens are to last as long as is accepted. -/
def endless : Environment := settingLifetime bare .access maxLifetime

/-- **The longest lifetime is accepted, and issuing aborts already at the start of 1970.** -/
theorem accepted_and_aborts :
    ∃ c epoch, load endless = .ok c ∧ Instant.ofNanos? 0 = some epoch ∧ epoch.InEra ∧
      Aborts ⟨.empty, c.cacheSeconds, c.tokens⟩ someone .access none (.repeating 1) epoch := by
  obtain ⟨c, hload, hlifetime⟩ :=
    load_settingLifetime load_bare .access (show 0 < maxLifetime by decide) (Int.le_refl _)
  refine ⟨c, ⟨0, by decide, by decide⟩, hload, rfl, ⟨by decide, by decide⟩, ?_⟩
  rw [aborts_iff]
  show Instant.add? _ (c.tokens.lifetime .access) = none
  rw [hlifetime]
  rfl

end Config
end AccessControl
