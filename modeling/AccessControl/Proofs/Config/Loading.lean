import AccessControl.Config.Setup
import AccessControl.Proofs.Config.Lifetime
import AccessControl.Proofs.Text.Numeral

/-! # Which configurations are read, and that they can be set up

`Config.Loadable` says what an environment must say, name by name; each text is read by a reading
of its own, and each reading has its condition (`required_iff`, `place_iff`, `number_iff`,
`lifetime_iff`).  A configuration that was read has passed what is checked once more when the
services are set up (`Checked`), so of these second checks none fails (`setupWith_of_checked`), and
only the client of the remote cache still has a say.
-/
namespace AccessControl

namespace Catalog

/-- The catalog of the service can be made. -/
theorem exists_standard : ∃ catalog, standard = .ok catalog := by
  have hok : standard.isOk = true := by decide +kernel
  cases hstandard : standard with
  | ok catalog => exact ⟨catalog, rfl⟩
  | error failure =>
    rw [hstandard] at hok
    cases hok

end Catalog

namespace Utf8

/-- A text has as many octets as it says. -/
theorem length_encode (s : String) : (encode s.toList).length = s.utf8ByteSize := by
  have hbytes : s.toByteArray = (encode s.toList).toByteArray := by
    rw [← String.ofList_toList (s := s), String.toByteArray_ofList, String.toList_ofList]
    rfl
  rw [← String.size_toByteArray, hbytes, List.size_toByteArray]

end Utf8

namespace Config
variable {env : Environment} {name value : String} {default n : Int} {bounds : Decimal.Bounds}
  {place : CachePlace} {c : Config}

/-! ## What an environment says -/

/-- It is said where the remote cache is, and not with blanks only. -/
def LocatesCache (env : Environment) : Prop :=
  ∃ url, env "REDIS_URL" = some url ∧ isBlankText url = false

/-- **Where items are to be cached**: as it is said, or else remotely if it is said where. -/
inductive Chooses (env : Environment) : CachePlace → Prop where
  | remote (h : env "CACHE_BACKEND" = some "redis") : Chooses env .remote
  | memory (h : env "CACHE_BACKEND" = some "in_memory") : Chooses env .memory
  | located (h : env "CACHE_BACKEND" = none) (hurl : LocatesCache env) : Chooses env .remote
  | unlocated (h : env "CACHE_BACKEND" = none) (hurl : ¬LocatesCache env) : Chooses env .memory

/-- A text, if it is set, spells a number of a range when it is trimmed. -/
def SetsNumber (env : Environment) (bounds : Decimal.Bounds) (name : String) : Prop :=
  ∀ value, env name = some value →
    ∃ n, Decimal.SpellsIn bounds (trimChars value.toList) n

/-- A text, if it is set, spells a number of seconds that is a lifetime. -/
def SetsLifetime (env : Environment) (name : String) : Prop :=
  ∀ value, env name = some value →
    ∃ n, Decimal.SpellsIn .signed64 (trimChars value.toList) n ∧ 0 < n ∧ n ≤ maxLifetime

/-- **What an environment must say so that a configuration is read from it.** -/
structure Loadable (env : Environment) : Prop where
  database : ∃ url, env "DATABASE_URL" = some url
  /-- It can be told where items are cached, and a remote cache is located. -/
  place : ∃ place, Chooses env place ∧ (place = .remote → LocatesCache env)
  seconds : SetsNumber env .unsigned32 "CACHE_TTL_SECONDS"
  secret : ∃ secret, env "JWT_SECRET" = some secret ∧ 32 ≤ secret.utf8ByteSize
  access : SetsLifetime env "ACCESS_TOKEN_TTL_SECONDS"
  refresh : SetsLifetime env "REFRESH_TOKEN_TTL_SECONDS"
  deadline : SetsNumber env .unsigned64 "AUTH_DEADLINE_MS"

/-! ## The readings -/

theorem required_iff : required env name = .ok value ↔ env name = some value := by
  rw [required]
  cases env name with
  | none => simp
  | some text => simp

theorem isSome_cacheUrlOf_iff : (cacheUrlOf env).isSome = true ↔ LocatesCache env := by
  rw [cacheUrlOf, LocatesCache]
  cases env "REDIS_URL" with
  | none => simp
  | some url => simp [Option.filter]

theorem isNone_cacheUrlOf_iff : (cacheUrlOf env).isNone = true ↔ ¬LocatesCache env := by
  rw [← isSome_cacheUrlOf_iff]
  cases cacheUrlOf env <;> simp

theorem place_iff : cachePlaceOf env = .ok place ↔ Chooses env place := by
  constructor
  · intro h
    rw [cachePlaceOf] at h
    split at h
    · rename_i hsaid
      obtain rfl := Except.ok.inj h
      exact .remote hsaid
    · rename_i hsaid
      obtain rfl := Except.ok.inj h
      exact .memory hsaid
    · cases h
    · rename_i hsaid
      by_cases hurl : LocatesCache env
      · rw [if_pos (isSome_cacheUrlOf_iff.mpr hurl)] at h
        obtain rfl := Except.ok.inj h
        exact .located hsaid hurl
      · rw [if_neg fun hsome => hurl (isSome_cacheUrlOf_iff.mp hsome)] at h
        obtain rfl := Except.ok.inj h
        exact .unlocated hsaid hurl
  · rintro (hsaid | hsaid | ⟨hsaid, hurl⟩ | ⟨hsaid, hurl⟩)
    · rw [cachePlaceOf, hsaid]
      rfl
    · rw [cachePlaceOf, hsaid]
      rfl
    · rw [cachePlaceOf, hsaid]
      exact congrArg Except.ok (if_pos (isSome_cacheUrlOf_iff.mpr hurl))
    · rw [cachePlaceOf, hsaid]
      exact congrArg Except.ok (if_neg fun hsome => hurl (isSome_cacheUrlOf_iff.mp hsome))

/-- A number is read as it is set, or else as the default. -/
theorem number_iff (bounds : Decimal.Bounds) (hlow : bounds.low ≤ 0) (hhigh : 0 ≤ bounds.high) :
    number env bounds name default = .ok n ↔
      (env name = none ∧ n = default) ∨
        ∃ value, env name = some value ∧ Decimal.SpellsIn bounds (trimChars value.toList) n := by
  rw [number]
  cases hset : env name with
  | none => simp [eq_comm]
  | some value =>
    dsimp only
    cases hread : Decimal.read bounds (trimChars value.toList) with
    | ok m =>
      have hspells := (Decimal.read_eq_ok_iff hlow hhigh).mp hread
      simp [← Decimal.read_eq_ok_iff hlow hhigh, hread]
    | error fault => simp [← Decimal.read_eq_ok_iff hlow hhigh, hread]

/-- **A number with a property can be read unless it is set to a text that spells none**, if the
default has the property. -/
theorem exists_number_and_iff (hlow : bounds.low ≤ 0) (hhigh : 0 ≤ bounds.high) {P : Int → Prop}
    (hdefault : P default) :
    (∃ n, number env bounds name default = .ok n ∧ P n) ↔ ∀ value, env name = some value →
      ∃ n, Decimal.SpellsIn bounds (trimChars value.toList) n ∧ P n := by
  simp only [number_iff bounds hlow hhigh]
  constructor
  · rintro ⟨n, ⟨hunset, -⟩ | ⟨text, hset, hspells⟩, hn⟩ value hvalue
    · exact absurd (hunset.symm.trans hvalue) (by simp)
    · obtain rfl := Option.some.inj (hset.symm.trans hvalue)
      exact ⟨n, hspells, hn⟩
  · intro h
    cases hset : env name with
    | none => exact ⟨default, .inl ⟨rfl, rfl⟩, hdefault⟩
    | some value =>
      obtain ⟨n, hspells, hn⟩ := h value hset
      exact ⟨n, .inr ⟨value, rfl, hspells⟩, hn⟩

theorem exists_number_iff (hlow : bounds.low ≤ 0) (hhigh : 0 ≤ bounds.high) :
    (∃ n, number env bounds name default = .ok n) ↔ SetsNumber env bounds name := by
  have hany : (∃ n, number env bounds name default = .ok n ∧ True) ↔ _ :=
    exists_number_and_iff hlow hhigh trivial
  simpa [SetsNumber] using hany

theorem lifetime_iff :
    lifetime env name default = .ok n ↔
      number env .signed64 name default = .ok n ∧ 0 < n ∧ n ≤ maxLifetime := by
  simp only [lifetime, Except.bind_eq_ok_iff, failIf_eq_ok_iff, Except.pure_eq_ok_iff, Int.not_le,
    Int.not_lt, exists_const]
  constructor
  · rintro ⟨_, hread, hpositive, hbounded, rfl⟩
    exact ⟨hread, hpositive, hbounded⟩
  · rintro ⟨hread, hpositive, hbounded⟩
    exact ⟨n, hread, hpositive, hbounded, rfl⟩

/-- A lifetime can be read unless it is set to a text that spells none. -/
theorem exists_lifetime_iff (default : Int) (hdefault : 0 < default ∧ default ≤ maxLifetime) :
    (∃ n, lifetime env name default = .ok n) ↔ SetsLifetime env name := by
  simp only [lifetime_iff]
  exact exists_number_and_iff (by decide) (by decide) hdefault

/-- What is asked of a place where items are cached is that a remote cache is located. -/
theorem not_unlocated_iff :
    ¬(place = .remote ∧ (cacheUrlOf env).isNone = true) ↔
      (place = .remote → LocatesCache env) := by
  rw [isNone_cacheUrlOf_iff, not_and, Classical.not_not]

/-- **A configuration is read from an environment that says what it must, and from no other.** -/
theorem exists_load_iff : (∃ c, load env = .ok c) ↔ Loadable env := by
  simp only [load, Except.bind_eq_ok_iff, required_iff, place_iff, failIf_eq_ok_iff,
    not_unlocated_iff, Except.pure_eq_ok_iff, exists_const]
  constructor
  · rintro ⟨_, url, hurl, place, hplace, hlocated, seconds, hseconds, secret, hsecret, hlong,
      access, haccess, refresh, hrefresh, deadline, hdeadline, -⟩
    exact {
      database := ⟨url, hurl⟩
      place := ⟨place, hplace, hlocated⟩
      seconds := (exists_number_iff (by decide) (by decide)).mp ⟨seconds, hseconds⟩
      secret := ⟨secret, hsecret, Nat.not_lt.mp hlong⟩
      access := (exists_lifetime_iff _ (by decide)).mp ⟨access, haccess⟩
      refresh := (exists_lifetime_iff _ (by decide)).mp ⟨refresh, hrefresh⟩
      deadline := (exists_number_iff (by decide) (by decide)).mp ⟨deadline, hdeadline⟩ }
  · intro h
    obtain ⟨url, hurl⟩ := h.database
    obtain ⟨place, hplace, hlocated⟩ := h.place
    obtain ⟨seconds, hseconds⟩ := (exists_number_iff (by decide) (by decide)).mpr h.seconds
    obtain ⟨secret, hsecret, hlong⟩ := h.secret
    obtain ⟨access, haccess⟩ :=
      (exists_lifetime_iff ({} : Token.Settings).accessLifetime (by decide)).mpr h.access
    obtain ⟨refresh, hrefresh⟩ :=
      (exists_lifetime_iff ({} : Token.Settings).refreshLifetime (by decide)).mpr h.refresh
    obtain ⟨deadline, hdeadline⟩ := (exists_number_iff (by decide) (by decide)).mpr h.deadline
    exact ⟨_, url, hurl, place, hplace, hlocated, seconds, hseconds, secret, hsecret,
      Nat.not_lt.mpr hlong, access, haccess, refresh, hrefresh, deadline, hdeadline, rfl⟩

/-! ## Setting up what was read -/

/-- What is checked once more when the services are set up: a remote cache is located, and the
secret is long enough. -/
structure Checked (c : Config) : Prop where
  located : c.cachePlace = .remote → c.cacheUrl? ≠ none
  long : 32 ≤ c.secret.utf8ByteSize

theorem checked_of_load (h : load env = .ok c) : Checked c := by
  simp only [load, Except.bind_eq_ok_iff, failIf_eq_ok_iff, exists_const] at h
  obtain ⟨_, -, place, -, hlocated, _, -, secret, -, hlong, _, -, _, -, _, -, h⟩ := h
  obtain rfl := Except.pure_eq_ok_iff.mp h
  refine ⟨fun hremote hnone => hlocated ⟨hremote, ?_⟩, Nat.not_lt.mp hlong⟩
  exact Option.isNone_iff_eq_none.mpr hnone

/-- The cache is to be remote, and its client does not take the URL. -/
def Refuses (takes : String → Bool) (c : Config) : Prop :=
  c.cachePlace = .remote ∧ ∃ url, c.cacheUrl? = some url ∧ takes url = false

/-- Where a remote cache is located, only its client can refuse it. -/
theorem cacheWith_cases (h : Checked c) (takes : String → Bool) :
    (Refuses takes c ∧ c.cacheWith takes = .error (.validation "invalid REDIS_URL")) ∨
      (¬Refuses takes c ∧ ∃ cache, c.cacheWith takes = .ok cache) := by
  rw [cacheWith, Refuses]
  cases hplace : c.cachePlace with
  | memory => exact .inr ⟨fun h => (nomatch h.1), _, rfl⟩
  | remote =>
    cases hurl : c.cacheUrl? with
    | none => exact absurd hurl (h.located hplace)
    | some url =>
      cases htakes : takes url with
      | true =>
        refine .inr ⟨?_, _, if_pos htakes⟩
        rintro ⟨-, other, hother, hfalse⟩
        obtain rfl := Option.some.inj hother
        exact absurd (htakes.symm.trans hfalse) (by decide)
      | false => exact .inl ⟨⟨rfl, url, rfl, htakes⟩, if_neg (by simp [htakes])⟩

/-- A secret that is long enough makes a signer. -/
theorem exists_signer (h : Checked c) :
    ∃ signer, Jwt.Signer.new c.secret c.tokens.issuer c.tokens.audience = .ok signer := by
  have hlong : ¬(Utf8.encode c.secret.toList).length < Jwt.minSecretLength := by
    rw [Utf8.length_encode]
    exact Nat.not_lt.mpr h.long
  exact ⟨_, if_neg hlong⟩

/-- **Of all that is checked when the services are set up only the client of the remote cache can
find fault.** -/
theorem setupWith_of_checked (h : Checked c) (takes : String → Bool) :
    (Refuses takes c ∧ c.setupWith takes = .error (.validation "invalid REDIS_URL")) ∨
      (¬Refuses takes c ∧ ∃ s, c.setupWith takes = .ok s) := by
  rcases cacheWith_cases h takes with ⟨hrefuses, hcache⟩ | ⟨hrefuses, cache, hcache⟩
  · left
    rw [setupWith, hcache]
    exact ⟨hrefuses, rfl⟩
  · right
    obtain ⟨catalog, hcatalog⟩ := Catalog.exists_standard
    obtain ⟨signer, hsigner⟩ := exists_signer h
    rw [setupWith, hcache, hcatalog, hsigner]
    exact ⟨hrefuses, _, rfl⟩

/-- **What is read can be set up.**  A configuration is read from exactly the environments that say
what they must.  Whatever URLs the client of a remote cache takes, each configuration that is read
can be set up unless the cache is remote and the client does not take its URL; and that is the one
failure there is. -/
theorem what_is_read_can_be_set_up (env : Environment) :
    ((∃ c, load env = .ok c) ↔ Loadable env) ∧
      ∀ c, load env = .ok c → ∀ takes : String → Bool,
        ((∃ s, c.setupWith takes = .ok s) ↔ ¬Refuses takes c) ∧
          ∀ failure, c.setupWith takes = .error failure →
            failure = .validation "invalid REDIS_URL" := by
  refine ⟨exists_load_iff, fun c hload takes => ?_⟩
  rcases setupWith_of_checked (checked_of_load hload) takes with
    ⟨hrefuses, hsetup⟩ | ⟨hrefuses, s, hsetup⟩
  · rw [hsetup]
    exact ⟨iff_of_false (fun h => nomatch h.choose_spec) (not_not_intro hrefuses),
      fun failure h => (Except.error.inj h).symm⟩
  · rw [hsetup]
    exact ⟨iff_of_true ⟨s, rfl⟩ hrefuses, fun failure h => nomatch h⟩

/-- Where only what is needed is set, a configuration is read, and it can be set up with a client
that takes no URL at all, for the cache is in memory. -/
theorem what_is_read_can_be_set_up_in_bare :
    Loadable bare ∧ load bare = .ok bareConfig ∧
      ∃ s, bareConfig.setupWith (fun _ => false) = .ok s := by
  obtain ⟨hread, hsetup⟩ := what_is_read_can_be_set_up bare
  refine ⟨hread.mp ⟨bareConfig, load_bare⟩, load_bare, ?_⟩
  exact (hsetup bareConfig load_bare fun _ => false).1.mpr fun h => nomatch h.1

end Config
end AccessControl
