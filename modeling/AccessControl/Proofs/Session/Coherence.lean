import AccessControl.Proofs.Session.History
import AccessControl.Proofs.World.Aspect

/-! # Sessions leave decisions alone

The services of sessions write tokens and stamps and nothing else, and cache nothing else.  No
decision on permissions depends on these: in the store a decision depends on roles and on what
users have, and in the cache on items of these.  So every request that the services make leaves a
coherent world coherent (`World.Coherent.answers`), whether or not their programs come to an end.
-/
namespace AccessControl

/-- **A request leaves alone what decisions depend on**: it touches nothing but stamps, and what
it caches is valid for every store. -/
structure Backend.Request.LeavesDecisions (r : Backend.Request) : Prop where
  stamps : ∀ aspect, r.Touches aspect → ∃ user, aspect = .stamp user
  valid : ∀ (key : CacheKey) value seconds, r = .cacheSet key.text value seconds →
    ∀ s catalog, Cached.Valid s catalog key value

namespace World
variable {catalog : Catalog} {mayFail : Backend.Request → Bool} {w w' : World}
  {r : Backend.Request}

/-- Stores that say the same but for stamps agree on what is computed for every item. -/
theorem agrees_of_sameIn {s s' : Store}
    (h : ∀ aspect : Aspect, (∀ user, aspect ≠ .stamp user) → s.SameIn s' aspect)
    (key : CacheKey) : s.Agrees catalog s' key := by
  cases key with
  | userRoles user => exact h (.assignments user) nofun
  | userPermissions user => exact h (.overrides user) nofun
  | rolePermissions role =>
    have hrole : s'.findRole role = s.findRole role := h (.role role) nofun
    have hrows : s'.grantsOfRole role = s.grantsOfRole role := h (.roleGrants role) nofun
    show s'.roleSet catalog role = s.roleSet catalog role
    rw [Store.roleSet, hrole, hrows, Store.roleSet]
  | tokenValidity user key => trivial
  | securityStamp user => trivial

theorem Coherent.answers (h : w.Coherent catalog) (hr : r.LeavesDecisions)
    {a : Backend.Answer r} (ha : (unreliable mayFail).Answers r w a w') :
    w'.Coherent catalog := by
  intro key value _ hheld
  have hagrees : w.store.Agrees catalog w'.store key := by
    refine agrees_of_sameIn (fun aspect haspect => sameIn_of_answers (fun htouches => ?_) ha) key
    obtain ⟨user, hstamp⟩ := hr.stamps aspect htouches
    exact haspect user hstamp
  rcases holds_of_answers ha hheld with hold | hspoilt | ⟨seconds, hset⟩
  · exact hagrees.valid (h key value id hold)
  · exact hspoilt.valid _ _
  · exact hr.valid key value seconds hset _ _

/-- **What leaves decisions alone keeps a world coherent.** -/
theorem Coherent.follows {t : List (Exchange Backend)} (h : w.Coherent catalog)
    (hf : (unreliable mayFail).Follows w t w') (ht : ∀ e ∈ t, e.request.LeavesDecisions) :
    w'.Coherent catalog :=
  hf.invariant (P := Coherent catalog) (fun e he _ _ ha hv => hv.answers (ht e he) ha) h

end World

namespace Session
open World Program Backend.Request
variable {d : Deployment}

theorem leavesDecisions_plain {r : Backend.Request} (htouches : ∀ aspect, ¬r.Touches aspect)
    (hset : ∀ key value seconds, r ≠ .cacheSet key value seconds) : r.LeavesDecisions where
  stamps aspect h := absurd h (htouches aspect)
  valid key value seconds h := absurd h (hset key.text value seconds)

/-- Caching an item that no decision is made from. -/
theorem leavesDecisions_cacheSet (key : CacheKey)
    (hkey : ∀ value s catalog, Cached.Valid s catalog key value) (value : String)
    (seconds : UInt32) : LeavesDecisions (.cacheSet key.text value seconds) where
  stamps _ h := h.elim
  valid other value' seconds' h := by
    obtain ⟨htext, rfl, rfl⟩ := Backend.Request.cacheSet.inj h
    obtain rfl := CacheKey.text_injective htext
    exact hkey value

theorem allows_leavesDecisions : Allows LeavesDecisions where
  get _ := leavesDecisions_plain (fun _ => id) nofun
  delete _ := leavesDecisions_plain (fun _ => id) nofun
  fresh := leavesDecisions_plain (fun _ => id) nofun
  now := leavesDecisions_plain (fun _ => id) nofun
  verify _ := leavesDecisions_plain (fun _ => id) nofun
  isTokenLive _ _ _ := leavesDecisions_plain (fun _ => id) nofun
  deleteToken _ _ := leavesDecisions_plain (fun _ => id) nofun
  deleteTokens _ := leavesDecisions_plain (fun _ => id) nofun
  findStamp _ := leavesDecisions_plain (fun _ => id) nofun
  live seconds item :=
    leavesDecisions_cacheSet (.tokenValidity item.userId item.key) (fun _ _ _ => trivial) _ seconds
  createToken _ := leavesDecisions_plain (fun _ => id) nofun

theorem allowsStamp_leavesDecisions (owner : UserId) : AllowsStamp LeavesDecisions owner :=
  allows_leavesDecisions.toAllowsPlain.stamp fun _ seconds =>
    leavesDecisions_cacheSet (.securityStamp owner) (fun _ _ _ => trivial) _ seconds

theorem leavesDecisions_sign (claims : Token.Claims) : LeavesDecisions (.sign claims) :=
  leavesDecisions_plain (fun _ => id) nofun

/-- A stamp that is written is the only thing that is touched. -/
theorem leavesDecisions_updateStamp (user : UserId) (stamp : SecurityStamp) :
    LeavesDecisions (.updateStamp user stamp) where
  stamps _ h := ⟨user, h⟩
  valid _ _ _ := nofun

/-- **No call to a service of sessions has to do with decisions.** -/
theorem Call.asks_leavesDecisions (c : Call) : (c.service d).run.Asks LeavesDecisions := by
  cases c with
  | issue subject kind refreshKey =>
    exact asks_issue allows_leavesDecisions d subject kind refreshKey
      fun claims _ _ => leavesDecisions_sign claims
  | issuePair subject =>
    exact asks_issuePair allows_leavesDecisions d subject
      fun claims _ _ => leavesDecisions_sign claims
  | validate token kind =>
    exact asks_validate (allows_leavesDecisions.verify token) allowsStamp_leavesDecisions
      allows_leavesDecisions.key d kind
  | refreshAccess token =>
    exact asks_refreshAccess allows_leavesDecisions allowsStamp_leavesDecisions d token
      leavesDecisions_sign
  | revoke user claims => exact asks_revoke allows_leavesDecisions.toAllowsPlain user claims
  | rotateStamp user =>
    exact asks_rotateStamp allows_leavesDecisions.toAllowsPlain user
      (leavesDecisions_updateStamp user)

/-- **Every call to a service of sessions keeps the cache right**, whatever may fail. -/
theorem Call.keeps {mayFail : Backend.Request → Bool} (c : Call) :
    Keeps mayFail d.catalog (c.service d) :=
  Outside.preserves_of_asks c.asks_leavesDecisions fun _ _ _ _ hr ha hw => hw.answers hr ha

end Session
end AccessControl
