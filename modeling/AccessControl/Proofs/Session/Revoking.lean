import AccessControl.Proofs.World.Failing
import AccessControl.Session.Revoke

/-! # Revoking goes through every step

For each key its record is removed, and then what is cached of it; no step is left out because an
earlier one failed (`stepsFor`).  What the steps for one key leave of a world is `World.without`,
where each of the two removals is seen unless it is the one that failed
(`ensures_revokeKey_failing`).  From it the run over all keys follows by induction, with the first
failure of a record's removal as its end (`ensures_revokeKeys_failing`).
-/
namespace AccessControl
open World Outside

variable {faults : Backend.Request → Option Failure} {user : UserId} {key : TokenKey}
  {keys : List TokenKey} {w : World} {log : List (Exchange Backend)}

namespace World

/-- How the removal of the record of a key fails, if it does. -/
abbrev rowFault (faults : Backend.Request → Option Failure) (user : UserId) (key : TokenKey) :
    Option Failure := faults (.deleteToken user key)

/-- How the removal of what is cached of a key fails, if it does. -/
abbrev markerFault (faults : Backend.Request → Option Failure) (user : UserId) (key : TokenKey) :
    Option Failure := faults (.cacheDelete (CacheKey.tokenValidity user key).text)

/-- A world without the record of a key and what is cached of it, apart from what could not be
removed. -/
def without (faults : Backend.Request → Option Failure) (user : UserId) (w : World)
    (key : TokenKey) : World :=
  { w with
    store :=
      if rowFault faults user key = none then (w.store.deleteToken user key).2 else w.store
    cache :=
      if markerFault faults user key = none then
        w.cache.delete (CacheKey.tokenValidity user key).text
      else w.cache }

theorem find?_tokens_without (owner : UserId × TokenKey) :
    (w.without faults user key).store.tokens.find? owner =
      if owner = (user, key) ∧ rowFault faults user key = none then none
      else w.store.tokens.find? owner := by
  by_cases hfault : rowFault faults user key = none
  · have htokens : (w.without faults user key).store.tokens =
        w.store.tokens.erase (user, key) := by
      rw [without, if_pos hfault]
      rfl
    rw [htokens, Table.find?_erase]
    simp only [hfault, and_true]
  · have htokens : (w.without faults user key).store.tokens = w.store.tokens := by
      rw [without, if_neg hfault]
    rw [htokens, if_neg fun h => hfault h.2]

theorem find?_entries_without (text : String) :
    (w.without faults user key).cache.entries.find? text =
      if text = (CacheKey.tokenValidity user key).text ∧ markerFault faults user key = none
      then none else w.cache.entries.find? text := by
  by_cases hfault : markerFault faults user key = none
  · have hentries : (w.without faults user key).cache.entries =
        w.cache.entries.erase (CacheKey.tokenValidity user key).text := by
      rw [without, if_pos hfault]
      rfl
    rw [hentries, Table.find?_erase]
    simp only [hfault, and_true]
  · have hentries : (w.without faults user key).cache.entries = w.cache.entries := by
      rw [without, if_neg hfault]
    rw [hentries, if_neg fun h => hfault h.2]

/-- What is looked up and is removed with some of the keys is gone after them if it was removed with
any. -/
theorem look_foldl_without {β : Type} (look : World → Option β) {P : TokenKey → Prop}
    [DecidablePred P]
    (hstep : ∀ w key, look (w.without faults user key) = if P key then none else look w)
    (keys : List TokenKey) (w : World) :
    look (keys.foldl (without faults user) w) = if ∃ key ∈ keys, P key then none else look w := by
  induction keys generalizing w with
  | nil => simp
  | cons key keys ih =>
    rw [List.foldl_cons, ih, hstep]
    by_cases hlater : ∃ key ∈ keys, P key
    · have hany : ∃ other ∈ key :: keys, P other := by
        obtain ⟨other, hmem, hother⟩ := hlater
        exact ⟨other, List.mem_cons_of_mem _ hmem, hother⟩
      rw [if_pos hlater, if_pos hany]
    · have hany : (∃ other ∈ key :: keys, P other) ↔ P key := by
        simp only [List.mem_cons, exists_eq_or_imp, or_iff_left hlater]
      rw [if_neg hlater, if_congr hany rfl rfl]

/-- From one world to another nothing but the records and the cached values has changed. -/
def SameBeside (w w' : World) : Prop :=
  ∃ tokens entries,
    w' = { w with
      store := { w.store with tokens }
      cache := { w.cache with entries } }

theorem sameBeside_without : SameBeside w (w.without faults user key) := by
  refine ⟨(w.without faults user key).store.tokens, (w.without faults user key).cache.entries, ?_⟩
  by_cases hrow : rowFault faults user key = none <;>
    by_cases hmarker : markerFault faults user key = none <;>
    simp only [without, hrow, hmarker, if_true, if_false] <;> rfl

theorem sameBeside_foldl_without (keys : List TokenKey) (w : World) :
    SameBeside w (keys.foldl (without faults user) w) := by
  induction keys generalizing w with
  | nil => exact ⟨_, _, rfl⟩
  | cons key keys ih =>
    have hstep : SameBeside w (w.without faults user key) := sameBeside_without
    obtain ⟨tokens, entries, hfirst⟩ := hstep
    obtain ⟨tokens', entries', hrest⟩ := ih (w.without faults user key)
    refine ⟨tokens', entries', ?_⟩
    rw [List.foldl_cons, hrest, hfirst]

end World

namespace Session

/-- The requests that revoke a key. -/
def stepsFor (user : UserId) (key : TokenKey) : List Backend.Request :=
  [.deleteToken user key, .cacheDelete (CacheKey.tokenValidity user key).text]

/-- Ends in a failure, if there is one. -/
def endingIn : Option Failure → Except Failure Unit
  | some failure => .error failure
  | none => .ok ()

/-- **What has become of a world after a revocation that left no step out.** -/
structure WentThrough (faults : Backend.Request → Option Failure) (user : UserId)
    (keys : List TokenKey) (w : World) (result : Except Failure Unit) (w' : World)
    (log : List (Exchange Backend)) : Prop where
  /-- Key by key the record is to be removed and then what is cached, whatever failed before. -/
  asked : log.map (·.request) = keys.flatMap (stepsFor user)
  /-- Of the failures only those of records count, and of these the first. -/
  ended : result = endingIn (keys.findSome? (rowFault faults user))
  /-- The record of a key is gone unless its own removal failed, and no other is. -/
  records : ∀ owner, w'.store.tokens.find? owner =
    if ∃ key ∈ keys, owner = (user, key) ∧ rowFault faults user key = none then none
    else w.store.tokens.find? owner
  /-- What is cached of a key is gone unless its own removal failed, and nothing else is. -/
  cached : ∀ text, w'.cache.entries.find? text =
    if ∃ key ∈ keys, text = (CacheKey.tokenValidity user key).text ∧
      markerFault faults user key = none then none
    else w.cache.entries.find? text
  rest : SameBeside w w'

/-- The record of a key is removed, or its removal fails and nothing is done. -/
theorem answerBut_deleteToken :
    answerBut faults (.deleteToken user key) w =
      (match rowFault faults user key with
        | some failure => .error failure
        | none => .ok (w.store.tokens.contains (user, key)),
      { w with store :=
          if rowFault faults user key = none then (w.store.deleteToken user key).2
          else w.store }) := by
  cases hfault : rowFault faults user key with
  | none =>
    rw [answerBut_of_none hfault]
    rfl
  | some failure => exact answerBut_of_some hfault rfl w

theorem answerBut_cacheDelete :
    (answerBut faults (.cacheDelete (CacheKey.tokenValidity user key).text) w).2 =
      { w with cache :=
          if markerFault faults user key = none then
            w.cache.delete (CacheKey.tokenValidity user key).text
          else w.cache } := by
  cases hfault : markerFault faults user key with
  | none =>
    rw [answerBut_of_none hfault]
    rfl
  | some failure =>
    rw [answerBut_of_some hfault rfl w]
    rfl

/-- **Both steps for a key are taken**, and the failure of the first is kept for the end. -/
theorem ensures_revokeKey_failing :
    (failing faults).logged.Ensures (revokeKey user key).run (w, log) fun result s =>
      result = endingIn (rowFault faults user key) ∧ s.1 = w.without faults user key ∧
        s.2.map (·.request) = log.map (·.request) ++ stepsFor user key := by
  rw [revokeKey, ensures_run_bind, ensures_run_outcome]
  refine ensures_failing (r := .deleteToken user key) ?_
  dsimp only
  rw [ensures_run_bind, ensures_run_lift, Cached.remove, Backend.request_eq, ensures_bind]
  refine ensures_failing (r := .cacheDelete _) (ensures_pure.mpr ?_)
  dsimp only
  rw [ensures_run_bind, ensures_run_conclude, answerBut_cacheDelete, answerBut_deleteToken]
  have hlog : ∀ a b, (log ++ [⟨.deleteToken user key, a⟩] ++
      [⟨.cacheDelete (CacheKey.tokenValidity user key).text, b⟩] : List (Exchange Backend)).map
        (·.request) = log.map (·.request) ++ stepsFor user key := by
    intro a b
    simp [stepsFor]
  cases hfault : rowFault faults user key with
  | some failure => exact ⟨rfl, by simp only [without, hfault], hlog _ _⟩
  | none => exact ensures_run_pure.mpr ⟨rfl, by simp only [without, hfault], hlog _ _⟩

/-- **All steps for all keys are taken**, and the first failure of a record's removal is the end. -/
theorem ensures_revokeKeys_failing (keys : List TokenKey) :
    (failing faults).logged.Ensures (revokeKeys user keys).run (w, log) fun result s =>
      result = endingIn (keys.findSome? (rowFault faults user)) ∧
        s.1 = keys.foldl (without faults user) w ∧
        s.2.map (·.request) = log.map (·.request) ++ keys.flatMap (stepsFor user) := by
  induction keys generalizing w log with
  | nil => exact ensures_run_pure.mpr ⟨rfl, rfl, by simp⟩
  | cons key keys ih =>
    rw [revokeKeys, ensures_run_bind, ensures_run_outcome]
    refine ensures_revokeKey_failing.mono ?_
    rintro first ⟨v, before⟩ ⟨rfl, rfl, hbefore⟩
    dsimp only
    rw [ensures_run_bind, ensures_run_outcome]
    refine ih.mono ?_
    rintro others ⟨w', log'⟩ ⟨rfl, rfl, hlog'⟩
    have hasked : log'.map (·.request) =
        log.map (·.request) ++ (key :: keys).flatMap (stepsFor user) := by
      rw [hlog', hbefore, List.append_assoc, List.flatMap_cons]
    dsimp only
    rw [ensures_run_bind, ensures_run_conclude, List.findSome?_cons, List.foldl_cons]
    cases rowFault faults user key with
    | some failure => exact ⟨rfl, rfl, hasked⟩
    | none => exact ensures_run_conclude.mpr ⟨rfl, rfl, hasked⟩

theorem wentThrough_of_revokeKeys (keys : List TokenKey) :
    (failing faults).logged.Ensures (revokeKeys user keys).run (w, []) fun result s =>
      WentThrough faults user keys w result s.1 s.2 := by
  refine (ensures_revokeKeys_failing keys).mono ?_
  rintro result ⟨w', log⟩ ⟨rfl, rfl, hlog⟩
  exact {
    asked := hlog
    ended := rfl
    records := fun owner => look_foldl_without (fun v => v.store.tokens.find? owner)
      (fun _ _ => find?_tokens_without owner) keys w
    cached := fun text => look_foldl_without (fun v => v.cache.entries.find? text)
      (fun _ _ => find?_entries_without text) keys w
    rest := sameBeside_foldl_without keys w }

theorem rejection_of_key {claims : Token.Claims} {rejection : Rejection}
    (h : claims.key = .error rejection) : rejection = .missingClaim "token_validity_key" := by
  rw [Token.Claims.key] at h
  split at h
  · cases h
  · exact (Except.error.inj h).symm

/-- **Revoking attempts every step**, whichever requests fail.  Claims whose key cannot be read are
refused before anything is asked for.  Otherwise the record of the token and what is cached of it
are to be removed, then those of the linked token if its key can be read, in this order; each is
gone unless its own removal failed, nothing else is changed, and the end is the first failure of a
record's removal, if there was any. -/
theorem revoking_leaves_no_step_out (faults : Backend.Request → Option Failure) (user : UserId)
    (claims : Token.Claims) (w : World) :
    (failing faults).logged.Yields (revoke user claims).run (w, []) fun result s =>
      match claims.key with
      | .error rejection =>
        rejection = .missingClaim "token_validity_key" ∧
          result = .error (.rejected rejection) ∧ s = (w, [])
      | .ok own =>
        WentThrough faults user (own :: claims.refreshKey.toList) w result s.1 s.2 := by
  refine yields_of_ensures_failing ?_
  rw [revoke]
  cases hkey : claims.key with
  | error rejection => exact ensures_run_throw.mpr ⟨rejection_of_key hkey, rfl, rfl⟩
  | ok own => exact wentThrough_of_revokeKeys _

end Session
end AccessControl
