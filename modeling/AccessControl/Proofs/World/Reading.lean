import AccessControl.Proofs.Program.Interleaving
import AccessControl.Proofs.World.Answers

/-! # What is read between two writes

As long as nobody writes to the store, it stays as it is, and whatever is read from it is
there (`follows_reading`).  So if the only writes in an interleaving are known, every answer in
it is known from the store that it fell upon.
-/
namespace AccessControl

/-- The requests that write to the store. -/
def Backend.Request.writes : Backend.Request → Bool
  | .createRole _ => true
  | .updateRole _ _ => true
  | .replaceRoleGrants _ _ => true
  | .deleteRole _ => true
  | .replaceUserGrants _ _ => true
  | .replaceUserRoles _ _ => true
  | .createToken _ => true
  | .deleteToken _ _ => true
  | .deleteTokens _ => true
  | .updateStamp _ _ => true
  | _ => false

/-- A request that writes nothing is none of those that write. -/
theorem Backend.Request.ne_of_writes {r r' : Backend.Request} (hr : r.writes = false)
    (hr' : r'.writes = true) : r ≠ r' := by
  rintro rfl
  cases hr.symm.trans hr'

namespace World
open Outside Program

/-- An answer about a role is as a store has it. -/
def IsRead (s : Store) : Exchange Backend → Prop
  | ⟨.findRole role, .ok found⟩ => found = s.findRole role
  | ⟨.roleGrants role, .ok rows⟩ => rows = s.grantsOfRole role
  | _ => True

/-- An answer about roles and users is as a store has it, or the store has failed. -/
def Reads (mayFail : Backend.Request → Bool) (s : Store) : Exchange Backend → Prop
  | ⟨.findRole role, found⟩ => Gives mayFail (s.findRole role) found
  | ⟨.roleGrants role, rows⟩ => Gives mayFail (s.grantsOfRole role) rows
  | ⟨.userGrants user, rows⟩ => Gives mayFail (s.grantsOfUser user) rows
  | ⟨.userRoles user, roles⟩ => Gives mayFail (s.rolesOfUser user) roles
  | _ => True

variable {mayFail : Backend.Request → Bool} {w w' : World} {r : Backend.Request}
  {t : List (Exchange Backend)}

theorem store_answer (h : r.writes = false) : (World.answer r w).2.store = w.store := by
  cases r <;> first | rfl | cases h

/-- A request that writes nothing leaves the store as it is. -/
theorem store_of_answers {a : Backend.Answer r} (hr : r.writes = false)
    (h : (unreliable mayFail).Answers r w a w') : w'.store = w.store :=
  preserved_of_answers (P := fun v => v.store = w.store) (fun hv hdrifts => hdrifts.store.trans hv)
    (store_answer hr).trans h rfl

theorem Reads.isRead {s : Store} {e : Exchange Backend} (h : Reads mayFail s e) : IsRead s e := by
  obtain ⟨r, a⟩ := e
  cases r with
  | findRole role =>
    cases a with
    | ok found => exact Gives.eq h
    | error failure => trivial
  | roleGrants role =>
    cases a with
    | ok rows => exact Gives.eq h
    | error failure => trivial
  | _ => trivial

/-- **What is read is as the store has it**, unless the store has failed. -/
theorem reads_of_answers {a : Backend.Answer r} (h : (unreliable mayFail).Answers r w a w') :
    Reads mayFail w.store ⟨r, a⟩ := by
  obtain ⟨v, hv, ha⟩ := h
  rw [← hv.store]
  cases ha with
  | served => cases r <;> first | exact .inl rfl | trivial
  | refused hfail hfailed =>
    cases r <;> first
      | trivial
      | exact .inr ⟨⟨_, rfl, hfail⟩, _, (Option.some.inj hfailed).symm⟩
  | unconfirmed hcaching _ => cases r <;> trivial

/-- **Between two writes the store stays as it is, and what is read is as the store has it.** -/
theorem follows_reads (h : (unreliable mayFail).Follows w t w')
    (ht : ∀ e ∈ t, e.request.writes = false) :
    w'.store = w.store ∧ ∀ e ∈ t, Reads mayFail w.store e := by
  induction h with
  | nil => exact ⟨rfl, fun _ he => absurd he List.not_mem_nil⟩
  | cons h _ ih =>
    obtain ⟨he, hrest⟩ := List.forall_mem_cons.mp ht
    obtain ⟨hstore, hread⟩ := ih hrest
    have hsame := store_of_answers he h
    exact ⟨hstore.trans hsame, List.forall_mem_cons.mpr ⟨reads_of_answers h, hsame ▸ hread⟩⟩

theorem follows_reading (h : (unreliable mayFail).Follows w t w')
    (ht : ∀ e ∈ t, e.request.writes = false) : w'.store = w.store ∧ ∀ e ∈ t, IsRead w.store e := by
  obtain ⟨hstore, hreads⟩ := follows_reads h ht
  exact ⟨hstore, fun e he => (hreads e he).isRead⟩

/-- **A write cuts an interleaving**: what is read before it, by whichever caller, is read from
the store that is written to. -/
theorem follows_cut_write {before after : List (Caller × Exchange Backend)} {caller : Caller}
    {e : Exchange Backend}
    (h : (unreliable mayFail).Follows w (both (before ++ (caller, e) :: after)) w')
    (hbefore : ∀ e ∈ both before, e.request.writes = false) :
    ∃ m m', m.store = w.store ∧ (unreliable mayFail).Answers e.request m e.answer m' ∧
      (unreliable mayFail).Follows m' (both after) w' ∧
      ∀ caller, ∀ e ∈ part caller before, IsRead w.store e := by
  obtain ⟨m, m', hreading, hwrite, hrest⟩ := follows_cut h
  obtain ⟨hstore, hread⟩ := follows_reading hreading hbefore
  exact ⟨m, m', hstore, hwrite, hrest, fun caller e he => hread e (mem_both_of_mem_part he)⟩

/-- **A write that is not said to have failed is done**, whatever drifted before. -/
theorem written_of_answers {f : Store → Except Failure Store} {a : Backend.Answer r}
    (h : (unreliable mayFail).Answers r w a w') (ha : ∀ failure, Trial.failed failure r ≠ some a)
    (hf : ∀ v, a = (World.answer r v).1 → f v.store = .ok (World.answer r v).2.store) :
    f w.store = .ok w'.store := by
  obtain ⟨v, hv, hanswered⟩ := h
  obtain ⟨hok, rfl⟩ := served_of_answered hanswered ha
  rw [← hv.store]
  exact hf v hok

/-- A change of a role that succeeds is done. -/
theorem updateRole_of_answers {role : RoleId} {change : RoleChange}
    (h : (unreliable mayFail).Answers (.updateRole role change) w (.ok ()) w') :
    w.store.updateRole role change = .ok w'.store :=
  written_of_answers (f := (·.updateRole role change)) h (fun _ h => nomatch Option.some.inj h)
    fun _ => of_write_eq_ok

/-- A replacement of the rows of a role that succeeds is done. -/
theorem replaceRoleGrants_of_answers {role : RoleId} {grants : List Grant}
    (h : (unreliable mayFail).Answers (.replaceRoleGrants role grants) w (.ok ()) w') :
    w.store.replaceRoleGrants role grants = .ok w'.store :=
  written_of_answers (f := (·.replaceRoleGrants role grants)) h (fun _ h => nomatch Option.some.inj h)
    fun _ => of_write_eq_ok

/-- Where reading from a store fails, it may. -/
theorem mayFail_of_failed {failure : Failure} {a : Backend.Answer r}
    (h : (unreliable mayFail).Answers r w a w') (hreads : r.writes = false)
    (hstore : r.isCaching = false) (hfailed : Trial.failed failure r = some a) :
    mayFail r = true := by
  obtain ⟨v, -, ha⟩ := h
  cases ha with
  | served =>
    -- What is done is not said to have failed.
    cases r <;> first
      | exact Bool.noConfusion hreads
      | exact Bool.noConfusion hstore
      | cases hfailed
  | refused hfail _ => exact hfail
  | unconfirmed hcaching _ => exact Bool.noConfusion (hstore.symm.trans hcaching)

/-- A stamp that is said to be written is. -/
theorem updateStamp_of_answers {user : UserId} {stamp : SecurityStamp}
    (h : (unreliable mayFail).Answers (.updateStamp user stamp) w (.ok ()) w') :
    w.store.updateStamp user stamp = .ok w'.store :=
  written_of_answers (f := (·.updateStamp user stamp)) h (fun _ h => nomatch Option.some.inj h)
    fun _ => of_write_eq_ok

/-! ## The cache -/

variable {key : CacheKey} {value : String}

theorem holds_of_answers {a : Backend.Answer r} (h : (unreliable mayFail).Answers r w a w')
    (hheld : w'.Holds key value) :
    w.Holds key value ∨ key.Spoilt value ∨ ∃ seconds, r = .cacheSet key.text value seconds := by
  obtain ⟨v, hv, hdone⟩ := done_or_not_of_answers h
  have hanswer : v.Holds key value ∨ ∃ seconds, r = .cacheSet key.text value seconds := by
    rcases hdone with rfl | rfl
    · exact holds_answer hheld
    · exact .inl hheld
  rcases hanswer with hheld' | hset
  · rcases hv.held key value hheld' with hw | hspoilt | hno
    · exact .inl hw
    · exact .inr (.inl hspoilt)
    · exact hno.elim
  · exact .inr (.inr hset)

/-- **What is held after some requests was held before, or stands for nothing, or was cached
by one of them.** -/
theorem holds_of_follows (h : (unreliable mayFail).Follows w t w') (hheld : w'.Holds key value) :
    w.Holds key value ∨ key.Spoilt value ∨
      ∃ e ∈ t, ∃ seconds, e.request = .cacheSet key.text value seconds := by
  induction h with
  | nil => exact .inl hheld
  | cons h _ ih =>
    rcases ih hheld with hm | hspoilt | ⟨e, he, hset⟩
    · rcases holds_of_answers h hm with hw | hspoilt | hset
      · exact .inl hw
      · exact .inr (.inl hspoilt)
      · exact .inr (.inr ⟨_, List.mem_cons_self, hset⟩)
    · exact .inr (.inl hspoilt)
    · exact .inr (.inr ⟨e, List.mem_cons_of_mem _ he, hset⟩)

/-- A value that the cache has answered was held, or it stands for nothing. -/
theorem held_of_cacheGet
    (h : (unreliable mayFail).Answers (.cacheGet key.text) w (.ok (some value)) w') :
    w.Holds key value ∨ key.Spoilt value := by
  obtain ⟨v, hv, ha⟩ := h
  obtain ⟨hanswer, -⟩ := served_of_answered ha fun _ h => nomatch Option.some.inj h
  rcases hv.held key value (holds_of_get hanswer.symm) with hheld | hspoilt | hno
  · exact .inl hheld
  · exact .inr hspoilt
  · exact hno.elim

/-- A request that may change the cache and nothing else. -/
structure Harmless (r : Backend.Request) : Prop where
  writes : r.writes = false
  fresh : r ≠ .fresh

/-- **Harmless requests change nothing but the cache**, and add to it what they cache. -/
theorem onlyCaches_of_follows (h : (unreliable mayFail).Follows w t w')
    (ht : ∀ e ∈ t, Harmless e.request) :
    OnlyCaches (fun key value => ∃ e ∈ t, ∃ seconds, e.request = .cacheSet key.text value seconds)
      w w' := by
  have hgiven : w'.supply = w.supply ∧ w'.drawn = w.drawn := by
    refine h.invariant (P := fun v => v.supply = w.supply ∧ v.drawn = w.drawn) ?_ ⟨rfl, rfl⟩
    intro e he m m' ha hm
    obtain ⟨v, hv, rfl | rfl⟩ := done_or_not_of_answers ha
    · obtain ⟨hsupply, hdrawn⟩ := given_answer (w := v) (ht e he).fresh
      exact ⟨hsupply.trans (hv.supply.trans hm.1), hdrawn.trans (hv.drawn.trans hm.2)⟩
    · exact ⟨hv.supply.trans hm.1, hv.drawn.trans hm.2⟩
  exact {
    store := (follows_reads h fun e he => (ht e he).writes).1
    signer := signer_of_follows h
    supply := hgiven.1
    drawn := hgiven.2
    held := fun key value hheld => holds_of_follows h hheld }

end World
end AccessControl
