import AccessControl.Permission.Effective
import AccessControl.Proofs.Json.Spelling
import AccessControl.Proofs.World.Unsettling

/-! # Where cached values come from

The services cache nothing but what they have just looked up, and after a write they remove
whatever it has made wrong.  Both are facts about what one caller exchanges, whatever answers it
and whoever else is there:

* before every value that is cached come, right after one another, the exchanges that it is made
  from (`Derived`);
* after every write come the removals of the items whose data it has changed.

Exchanges of which both hold are in order (`Orderly`).  Between a write and its last removal they
are so but for the items that are still to be removed (`OrderlyBut`).
-/
namespace AccessControl
open World Outside Program

/-- The requests with which the making of an item begins: the first of those that it is made
from. -/
def CacheKey.Origin : CacheKey → Backend.Request → Prop
  | .userRoles user, r => r = .userRoles user
  | .userPermissions user, r => r = .userGrants user
  | .rolePermissions role, r => r = .findRole role
  | .tokenValidity user key, r =>
    (∃ now, r = .isTokenLive user key now) ∨ ∃ expiresAt, r = .createToken ⟨user, key, expiresAt⟩
  | .securityStamp user, r => r = .findStamp user

/-- **What a value of an item is made from**: a first exchange, and those that follow it. -/
inductive Derived (catalog : Catalog) :
    CacheKey → Exchange Backend → List (Exchange Backend) → String → Prop where
  | userRoles (user : UserId) (roles : List RoleId) :
    Derived catalog (.userRoles user) ⟨.userRoles user, .ok roles⟩ []
      (Json.write (Cached.UserRoles.mk user roles))
  | userPermissions (user : UserId) (rows : List Grant) :
    Derived catalog (.userPermissions user) ⟨.userGrants user, .ok rows⟩ []
      (Json.write (Cached.UserPermissions.mk user (Overrides.ofRows rows).granted
        (Overrides.ofRows rows).prohibited))
  /-- A role is found, and then its rows are read. -/
  | rolePermissions (role : RoleId) (record : Role) (rows : List Grant) :
    Derived catalog (.rolePermissions role) ⟨.findRole role, .ok (some record)⟩
      [⟨.roleGrants role, .ok rows⟩]
      (Json.write (Cached.RolePermissions.mk role (record.effective rows catalog)))
  | securityStamp (user : UserId) (stamp : SecurityStamp) :
    Derived catalog (.securityStamp user) ⟨.findStamp user, .ok (some stamp)⟩ []
      (Json.write (Cached.Stamp.mk user stamp))
  | liveToken (user : UserId) (key : TokenKey) (now : Instant) :
    Derived catalog (.tokenValidity user key) ⟨.isTokenLive user key now, .ok true⟩ []
      (Json.write (Cached.LiveToken.mk user key))
  | newToken (user : UserId) (key : TokenKey) (expiresAt : Instant) :
    Derived catalog (.tokenValidity user key) ⟨.createToken ⟨user, key, expiresAt⟩, .ok ()⟩ []
      (Json.write (Cached.LiveToken.mk user key))

variable {catalog : Catalog} {key : CacheKey} {look e : Exchange Backend}
  {more log t u : List (Exchange Backend)} {value : String}

theorem Derived.origin (h : Derived catalog key look more value) : key.Origin look.request := by
  cases h with
  | liveToken user key now => exact .inl ⟨now, rfl⟩
  | newToken user key expiresAt => exact .inr ⟨expiresAt, rfl⟩
  | _ => rfl

/-- What follows the first exchange reads, and nothing in it is a beginning. -/
theorem Derived.of_mem_more (h : Derived catalog key look more value) :
    ∀ e ∈ more, e.request.writes = false ∧ ¬key.Origin e.request := by
  cases h with
  | rolePermissions role record rows => simp [Backend.Request.writes, CacheKey.Origin]
  | _ => simp

/-- What a value is made from does not make the item wrong. -/
theorem Derived.not_unsettles (h : Derived catalog key look more value) : ¬Unsettles key look := by
  cases h <;> exact id

/-! ## Order -/

/-- **Exchanges are in order but for some items**: what is cached was made just before, and what
was made wrong, but for these items, was removed afterwards. -/
structure OrderlyBut (catalog : Catalog) (pending : CacheKey → Prop)
    (log : List (Exchange Backend)) : Prop where
  filled : ∀ before after key value seconds a,
    log = before ++ ⟨.cacheSet (CacheKey.text key) value seconds, a⟩ :: after →
    ∃ rest look more, before = rest ++ look :: more ∧ Derived catalog key look more value
  tidied : ∀ before after key e, log = before ++ e :: after → Unsettles key e →
    pending key ∨ ∃ e' ∈ after, e'.request = .cacheDelete key.text

/-- Exchanges are in order. -/
abbrev Orderly (catalog : Catalog) : List (Exchange Backend) → Prop :=
  OrderlyBut catalog fun _ => False

/-- A request neither caches anything nor makes wrong what is cached, however it is answered. -/
structure Quiet (r : Backend.Request) : Prop where
  caches : ∀ text value seconds, r ≠ .cacheSet text value seconds
  settles : ∀ key a, ¬Unsettles key ⟨r, a⟩

theorem quiet_of_not_writes {r : Backend.Request} (h : r.writes = false)
    (hset : ∀ text value seconds, r ≠ .cacheSet text value seconds) : Quiet r :=
  ⟨hset, fun _ _ => not_unsettles_of_not_writes h⟩

theorem quiet_get {text : String} : Quiet (.cacheGet text) := quiet_of_not_writes rfl nofun

theorem quiet_delete {text : String} : Quiet (.cacheDelete text) := quiet_of_not_writes rfl nofun

/-- Reading an item is quiet. -/
theorem asks_read_quiet {α : Type} [Json.Form α] (key : CacheKey) :
    (Cached.read α key).Asks Quiet := asks_read quiet_get quiet_delete

namespace OrderlyBut
variable {pending pending' : CacheKey → Prop}

theorem nil (catalog : Catalog) : Orderly catalog [] where
  filled before after key value seconds a h := absurd h.symm (by simp)
  tidied before after key e h := absurd h.symm (by simp)

theorem mono (h : OrderlyBut catalog pending log) (hpending : ∀ key, pending key → pending' key) :
    OrderlyBut catalog pending' log where
  filled := h.filled
  tidied before after key e heq he := (h.tidied before after key e heq he).imp_left (hpending key)

/-- The beginning of what is in order is so but for what is still to be removed. -/
theorem of_append (h : OrderlyBut catalog pending (t ++ u)) :
    OrderlyBut catalog (fun _ => True) t where
  filled before after key value seconds a heq :=
    h.filled before (after ++ u) key value seconds a
      (by rw [heq, List.append_assoc, List.cons_append])
  tidied _ _ _ _ _ _ := .inl trivial

/-- After one more exchange, what it has changed is still to be removed. -/
theorem concat (h : OrderlyBut catalog pending log)
    (he : ∀ text value seconds, e.request ≠ .cacheSet text value seconds) :
    OrderlyBut catalog (fun key => pending key ∨ Unsettles key e) (log ++ [e]) where
  filled before after key value seconds a heq := by
    rcases eq_or_of_concat_eq_append_cons heq with ⟨rfl, rfl⟩ | ⟨rest, rfl, hcut⟩
    · exact absurd rfl (he key.text value seconds)
    · exact h.filled before rest key value seconds a hcut
  tidied before after key change heq hchange := by
    rcases eq_or_of_concat_eq_append_cons heq with ⟨rfl, rfl⟩ | ⟨rest, rfl, hcut⟩
    · exact .inl (.inr hchange)
    · rcases h.tidied before rest key change hcut hchange with hpending | ⟨e', he', hremove⟩
      · exact .inl (.inl hpending)
      · exact .inr ⟨e', List.mem_append_left _ he', hremove⟩

/-- A quiet request leaves the order as it is. -/
theorem quiet {r : Backend.Request} (h : OrderlyBut catalog pending log) (hr : Quiet r)
    (a : Backend.Answer r) : OrderlyBut catalog pending (log ++ [⟨r, a⟩]) :=
  (h.concat (e := ⟨r, a⟩) hr.caches).mono fun key hkey =>
    hkey.resolve_right (hr.settles key a)

/-- **An item that is removed is no longer to be removed.** -/
theorem remove (h : OrderlyBut catalog pending log) (key : CacheKey)
    (a : Except Failure Unit) :
    OrderlyBut catalog (fun other => pending other ∧ other ≠ key)
      (log ++ [⟨.cacheDelete key.text, a⟩]) where
  filled := (h.concat (e := ⟨.cacheDelete key.text, a⟩) nofun).filled
  tidied before after other change heq hchange := by
    rcases eq_or_of_concat_eq_append_cons heq with ⟨rfl, rfl⟩ | ⟨rest, rfl, hcut⟩
    · exact False.elim hchange
    · by_cases hother : other = key
      · subst hother
        exact .inr ⟨_, List.mem_append_right _ List.mem_cons_self, rfl⟩
      · rcases h.tidied before rest other change hcut hchange with hpending | ⟨e', he', hremove⟩
        · exact .inl ⟨hpending, hother⟩
        · exact .inr ⟨e', List.mem_append_left _ he', hremove⟩

/-- The removal of the one item that is to be removed puts the exchanges in order. -/
theorem remove_last (h : OrderlyBut catalog (· = key) log) (a : Except Failure Unit) :
    Orderly catalog (log ++ [⟨.cacheDelete key.text, a⟩]) :=
  (h.remove key a).mono fun _ hkey => hkey.2 hkey.1

/-- **A value that was just made may be cached.** -/
theorem fill (h : OrderlyBut catalog pending (log ++ look :: more))
    (hderived : Derived catalog key look more value) (seconds : UInt32)
    (a : Except Failure Unit) :
    OrderlyBut catalog pending
      (log ++ look :: more ++ [⟨.cacheSet key.text value seconds, a⟩]) where
  filled before after key' value' seconds' a' heq := by
    rcases eq_or_of_concat_eq_append_cons heq with ⟨rfl, hset⟩ | ⟨rest, rfl, hcut⟩
    · obtain ⟨htext, rfl, rfl⟩ := Backend.Request.cacheSet.inj (congrArg Exchange.request hset)
      obtain rfl := CacheKey.text_injective htext
      exact ⟨log, look, more, rfl, hderived⟩
    · exact h.filled before rest key' value' seconds' a' hcut
  tidied before after key' change heq hchange := by
    rcases eq_or_of_concat_eq_append_cons heq with ⟨rfl, rfl⟩ | ⟨rest, rfl, hcut⟩
    · exact False.elim hchange
    · rcases h.tidied before rest key' change hcut hchange with hpending | ⟨e', he', hremove⟩
      · exact .inl hpending
      · exact .inr ⟨e', List.mem_append_left _ he', hremove⟩

end OrderlyBut

/-! ## Services that keep to the order -/

/-- A service that begins in order ends in order, however it is answered. -/
abbrev KeepsOrder {α : Type} (catalog : Catalog) (x : Service α) : Prop :=
  (recording Backend).Preserves (Orderly catalog) x

section KeepsOrder
variable {α : Type} {x : Service α}

/-- A service that only makes quiet requests. -/
theorem keepsOrder_of_asks (hx : x.run.Asks Quiet) : KeepsOrder catalog x :=
  preserves_of_asks hx fun _ _ a _ hr hlog h => hlog ▸ h.quiet hr a

/-- What a service that keeps to the order exchanges is in order. -/
theorem KeepsOrder.orderly {r : Except Failure α} (hx : KeepsOrder catalog x)
    (ht : x.run.Transcript t r) : Orderly catalog t :=
  Ensures.of_recording (hx [] (.nil catalog)) ht

/-- What it exchanges before it is given up is in order but for what is still to be removed. -/
theorem KeepsOrder.begins (hx : KeepsOrder catalog x) (ht : x.run.Begins t) :
    OrderlyBut catalog (fun _ => True) t := by
  obtain ⟨u, r, ht⟩ := ht
  exact (hx.orderly ht).of_append

theorem ensures_recording_store [Cached.Item α] {seconds : UInt32} {item : α}
    {Q : Except Failure Unit → List (Exchange Backend) → Prop}
    (h : ∀ a, Q (.ok ())
      (log ++ [⟨.cacheSet (Cached.Item.key item).text (Json.write item) seconds, a⟩])) :
    (recording Backend).Ensures (liftM (Cached.store seconds item) : Service Unit).run log Q := by
  rw [ensures_run_lift, Cached.store, Cached.write, Backend.request_eq, ensures_bind]
  exact ensures_recording (I := Backend) (r := .cacheSet _ _ _) fun a => ensures_pure.mpr (h a)

theorem ensures_recording_remove {Q : Unit → List (Exchange Backend) → Prop}
    (h : ∀ a, Q () (log ++ [⟨.cacheDelete key.text, a⟩])) :
    (recording Backend).Ensures (Cached.remove key) log Q := by
  rw [Cached.remove, Backend.request_eq, ensures_bind]
  exact ensures_recording (I := Backend) (r := .cacheDelete key.text) fun a =>
    ensures_pure.mpr (h a)

end KeepsOrder
end AccessControl
