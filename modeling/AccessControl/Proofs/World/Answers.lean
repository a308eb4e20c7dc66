import AccessControl.Proofs.World.Writes

/-! # What one answer changes

Of the parts of a world each has few requests that change it.  For each part it is said here
which; a program that does not make these requests leaves the part alone.
-/
namespace AccessControl

namespace Backend.Request.Wrote
variable {r : Backend.Request} {s s' : Store} {user : UserId}

/-- Of the writes to users only that of a stamp changes it: the others change the rows or the roles
of a user alone. -/
theorem stampOf (h : r.Wrote s s') (hr : ∀ stamp, r ≠ .updateStamp user stamp) :
    s'.stampOf user = s.stampOf user := by
  cases r with
  | createRole new =>
    obtain ⟨record, h⟩ := h
    obtain ⟨-, rfl⟩ := Store.createRole_ok h
    rfl
  | updateRole role change =>
    obtain ⟨-, rfl⟩ := Store.updateRole_ok h
    rfl
  | replaceRoleGrants role grants =>
    obtain ⟨-, rfl⟩ := Store.replaceRoleGrants_ok h
    rfl
  | deleteRole role =>
    obtain ⟨users, h⟩ := h
    exact Store.stampOf_deleteRole h user
  | replaceUserGrants owner grants => exact Store.stampOf_modifyUser h fun _ => rfl
  | replaceUserRoles owner roles =>
    exact Store.stampOf_modifyUser (Store.replaceUserRoles_ok h) fun _ => rfl
  | createToken record =>
    obtain rfl := Store.createToken_ok h
    rfl
  | deleteToken owner key =>
    obtain rfl := h
    rfl
  | deleteTokens owner =>
    obtain rfl := h
    rfl
  | updateStamp owner stamp =>
    have howner : user ≠ owner := fun howner => hr stamp (howner ▸ rfl)
    rw [Store.stampOf_updateStamp h, if_neg howner]
  | _ => exact h.elim

/-- Three writes change a record: the one that stores it, and those that remove it. -/
theorem find?_tokens {owner : UserId × TokenKey} (h : r.Wrote s s')
    (hcreate : ∀ record, r = .createToken record → (record.userId, record.key) ≠ owner)
    (hdelete : r ≠ .deleteToken owner.1 owner.2) (hforget : r ≠ .deleteTokens owner.1) :
    s'.tokens.find? owner = s.tokens.find? owner := by
  cases r with
  | createRole new =>
    obtain ⟨record, h⟩ := h
    obtain ⟨-, rfl⟩ := Store.createRole_ok h
    rfl
  | updateRole role change =>
    obtain ⟨-, rfl⟩ := Store.updateRole_ok h
    rfl
  | replaceRoleGrants role grants =>
    obtain ⟨-, rfl⟩ := Store.replaceRoleGrants_ok h
    rfl
  | deleteRole role =>
    obtain ⟨users, h⟩ := h
    obtain ⟨-, rfl⟩ := Store.deleteRole_ok h
    rfl
  | replaceUserGrants user grants =>
    obtain ⟨-, rfl⟩ := Store.modifyUser_ok h
    rfl
  | replaceUserRoles user roles =>
    obtain ⟨-, rfl⟩ := Store.modifyUser_ok (Store.replaceUserRoles_ok h)
    rfl
  | updateStamp user stamp =>
    obtain ⟨-, rfl⟩ := Store.modifyUser_ok h
    rfl
  | createToken record =>
    obtain rfl := Store.createToken_ok h
    rw [Table.find?_insert, if_neg (hcreate record rfl).symm]
  | deleteToken user key =>
    obtain rfl := h
    have howner : owner ≠ (user, key) := by
      rintro rfl
      exact hdelete rfl
    exact (Table.find?_erase ..).trans (if_neg howner)
  | deleteTokens user =>
    obtain rfl := h
    have howner : owner.1 ≠ user := by
      rintro rfl
      exact hforget rfl
    exact (Table.find?_filterKeys ..).trans (if_pos (decide_eq_true howner))
  | _ => exact h.elim

end Backend.Request.Wrote

namespace World
variable {w : World} {r : Backend.Request}

theorem signer_writeGiving {α : Type} (f : Store → Except Failure (α × Store)) :
    (writeGiving f w).2.signer = w.signer :=
  writeGiving_cases (Q := fun _ w' => w'.signer = w.signer) (fun _ _ _ => rfl) fun _ _ => rfl

theorem cache_writeGiving {α : Type} (f : Store → Except Failure (α × Store)) :
    (writeGiving f w).2.cache = w.cache :=
  writeGiving_cases (Q := fun _ w' => w'.cache = w.cache) (fun _ _ _ => rfl) fun _ _ => rfl

/-- No request changes the signer. -/
theorem signer_answer : (World.answer r w).2.signer = w.signer := by
  cases r <;> first | rfl | exact signer_writeGiving _

theorem signer_of_answers {mayFail : Backend.Request → Bool} {a : Backend.Answer r} {w' : World}
    (h : (unreliable mayFail).Answers r w a w') : w'.signer = w.signer :=
  preserved_of_answers (P := fun v => v.signer = w.signer) (fun hv hdrifts => hdrifts.signer.trans hv)
    signer_answer.trans h rfl

theorem signer_of_follows {mayFail : Backend.Request → Bool} {t : List (Exchange Backend)}
    {w' : World} (h : (unreliable mayFail).Follows w t w') : w'.signer = w.signer :=
  h.invariant (P := fun v => v.signer = w.signer)
    (fun _ _ _ _ ha hm => (signer_of_answers ha).trans hm) rfl

/-- Whatever was exchanged was answered in some world with the same signer. -/
theorem exists_answers_of_mem {mayFail : Backend.Request → Bool} {t : List (Exchange Backend)}
    {w' : World} {e : Exchange Backend} (h : (unreliable mayFail).Follows w t w') (he : e ∈ t) :
    ∃ m m', m.signer = w.signer ∧ (unreliable mayFail).Answers e.request m e.answer m' :=
  h.exists_of_mem (P := fun v => v.signer = w.signer)
    (fun _ _ _ _ ha hm => (signer_of_answers ha).trans hm) rfl he

theorem holds_writeGiving {α : Type} {f : Store → Except Failure (α × Store)} {key : CacheKey}
    {value : String} (h : (writeGiving f w).2.Holds key value) : w.Holds key value := by
  rw [Holds, cache_writeGiving] at h
  exact h

/-- **Only writing to the cache puts a value into it.** -/
theorem holds_answer {key : CacheKey} {value : String}
    (h : (World.answer r w).2.Holds key value) :
    w.Holds key value ∨ ∃ seconds, r = .cacheSet key.text value seconds := by
  cases r with
  | cacheGet key' => exact .inl (holds_get h)
  | cacheSet key' value' seconds =>
    rcases holds_set h with hold | ⟨rfl, rfl⟩
    · exact .inl hold
    · exact .inr ⟨seconds, rfl⟩
  | cacheDelete key' => exact .inl (holds_erase h).2
  | _ => first | exact .inl h | exact .inl (holds_writeGiving h)

/-- **Only writing a stamp of a user changes it.** -/
theorem stampOf_answer {user : UserId} (h : ∀ stamp, r ≠ .updateStamp user stamp) :
    (World.answer r w).2.store.stampOf user = w.store.stampOf user := by
  rcases store_answer_cases r w with hsame | hwrote
  · rw [hsame]
  · exact hwrote.stampOf h

/-- The stamp of a user after one request is the one from before, or was written by it. -/
theorem stampOf_answer_eq_some {user : UserId} {stamp : SecurityStamp}
    (h : (World.answer r w).2.store.stampOf user = some stamp) :
    w.store.stampOf user = some stamp ∨ r = .updateStamp user stamp := by
  rcases store_answer_cases r w with hsame | hwrote
  · rw [hsame] at h
    exact .inl h
  · by_cases hr : ∃ stamp', r = .updateStamp user stamp'
    · obtain ⟨stamp', rfl⟩ := hr
      rw [Store.stampOf_updateStamp hwrote, if_pos rfl] at h
      obtain rfl := Option.some.inj h
      exact .inr rfl
    · rw [hwrote.stampOf fun stamp' heq => hr ⟨stamp', heq⟩] at h
      exact .inl h

/-- What writes no stamp of a user leaves it as it is, whether it is done or fails. -/
theorem stampOf_of_answers {mayFail : Backend.Request → Bool} {user : UserId}
    {a : Backend.Answer r} {w' : World} (hr : ∀ stamp, r ≠ .updateStamp user stamp)
    (h : (unreliable mayFail).Answers r w a w') : w'.store.stampOf user = w.store.stampOf user :=
  preserved_of_answers (P := fun v => v.store.stampOf user = w.store.stampOf user)
    (fun hv hdrifts => hdrifts.store ▸ hv) (stampOf_answer hr).trans h rfl

/-- **As long as no stamp of a user is written, it stays as it is, and a stamp that is found is the
stored one.** -/
theorem follows_stampOf {mayFail : Backend.Request → Bool} (user : UserId)
    {t : List (Exchange Backend)} {w' : World} (h : (unreliable mayFail).Follows w t w')
    (ht : ∀ e ∈ t, ∀ stamp, e.request ≠ .updateStamp user stamp) :
    w'.store.stampOf user = w.store.stampOf user ∧
      ∀ found, ⟨.findStamp user, .ok found⟩ ∈ t → found = w.store.stampOf user := by
  induction h with
  | nil => exact ⟨rfl, fun _ he => absurd he List.not_mem_nil⟩
  | @cons w m w' e t h _ ih =>
    obtain ⟨he, hrest⟩ := List.forall_mem_cons.mp ht
    obtain ⟨hstamp, hfound⟩ := ih hrest
    have hsame : m.store.stampOf user = w.store.stampOf user := stampOf_of_answers he h
    refine ⟨hstamp.trans hsame, fun found hmem => ?_⟩
    rcases List.mem_cons.mp hmem with rfl | hmem
    · exact (findStamp_answers h).2 found rfl
    · exact (hfound found hmem).trans hsame

theorem now_writeGiving {α : Type} (f : Store → Except Failure (α × Store)) :
    (writeGiving f w).2.now = w.now :=
  writeGiving_cases (Q := fun _ w' => w'.now = w.now) (fun _ _ _ => rfl) fun _ _ => rfl

/-- No request takes time. -/
theorem now_answer : (World.answer r w).2.now = w.now := by
  cases r <;> first | rfl | exact now_writeGiving _

/-- A run in which everything does what it is asked takes no time. -/
theorem eq_now_of_mem_exchanges {α : Type} {p : Program Backend α} {now : Instant}
    (h : ⟨.now, now⟩ ∈ exchanges p w) : now = w.now := by
  induction p generalizing w with
  | done a => exact absurd h List.not_mem_nil
  | call r next ih =>
    rcases List.mem_cons.mp h with heq | h
    · cases heq
      rfl
    · exact (ih _ h).trans now_answer

theorem given_writeGiving {α : Type} (f : Store → Except Failure (α × Store)) :
    (writeGiving f w).2.supply = w.supply ∧ (writeGiving f w).2.drawn = w.drawn :=
  writeGiving_cases (Q := fun _ w' => w'.supply = w.supply ∧ w'.drawn = w.drawn)
    (fun _ _ _ => ⟨rfl, rfl⟩) fun _ _ => ⟨rfl, rfl⟩

/-- **Only an identifier that is asked for is given.** -/
theorem given_answer (h : r ≠ .fresh) :
    (World.answer r w).2.supply = w.supply ∧ (World.answer r w).2.drawn = w.drawn := by
  cases r <;> first | exact ⟨rfl, rfl⟩ | exact given_writeGiving _ | exact absurd rfl h

/-- A record that was stored with success is there. -/
theorem find?_of_createToken {mayFail : Backend.Request → Bool} {record : Token.Record}
    {a : Backend.Answer (.createToken record)} {w' : World}
    (h : (unreliable mayFail).Answers (.createToken record) w a w') (ha : a = .ok ()) :
    w'.store.tokens.find? (record.userId, record.key) = some record.expiresAt := by
  subst ha
  obtain ⟨v, -, h⟩ := h
  obtain ⟨hok, rfl⟩ := served_of_answered h fun _ h => nomatch Option.some.inj h
  have hstore : (World.answer (.createToken record) v).2.store = _ :=
    Store.createToken_ok (of_write_eq_ok hok)
  rw [hstore, Table.find?_insert, if_pos rfl]

/-- **Only storing or removing a record changes it.** -/
theorem find?_tokens_answer {owner : UserId × TokenKey}
    (hcreate : ∀ record, r = .createToken record → (record.userId, record.key) ≠ owner)
    (hdelete : r ≠ .deleteToken owner.1 owner.2) (hforget : r ≠ .deleteTokens owner.1) :
    (World.answer r w).2.store.tokens.find? owner = w.store.tokens.find? owner := by
  rcases store_answer_cases r w with hsame | hwrote
  · rw [hsame]
  · exact hwrote.find?_tokens hcreate hdelete hforget

/-- A record after one request is one from before, or was stored by it. -/
theorem record_answer {owner : UserId × TokenKey} {expiresAt : Instant}
    (h : (World.answer r w).2.store.tokens.find? owner = some expiresAt) :
    w.store.tokens.find? owner = some expiresAt ∨
      ∃ record, r = .createToken record ∧ owner = (record.userId, record.key) := by
  by_cases hcreate : ∃ record, r = .createToken record ∧ owner = (record.userId, record.key)
  · exact .inr hcreate
  · left
    -- A record that is there afterwards has not been removed.
    rw [← h, find?_tokens_answer fun record hr howner => hcreate ⟨record, hr, howner.symm⟩]
    · rintro rfl
      change (w.store.tokens.erase owner).find? owner = some expiresAt at h
      rw [Table.find?_erase, if_pos rfl] at h
      cases h
    · rintro rfl
      change (w.store.tokens.filterKeys _).find? owner = some expiresAt at h
      rw [Table.find?_filterKeys, if_neg (by simp)] at h
      cases h

/-- Where there is no record, only storing one brings one. -/
theorem unrecorded_answer {owner : UserId × TokenKey}
    (hr : ∀ record, r = .createToken record → (record.userId, record.key) ≠ owner)
    (hw : w.store.tokens.find? owner = none) :
    (World.answer r w).2.store.tokens.find? owner = none := by
  cases hfind : (World.answer r w).2.store.tokens.find? owner with
  | none => rfl
  | some expiresAt =>
    rcases record_answer hfind with hold | ⟨record, rfl, howner⟩
    · exact absurd (hw.symm.trans hold) (by simp)
    · exact absurd howner.symm (hr record rfl)

theorem unrecorded_of_answers {mayFail : Backend.Request → Bool} {owner : UserId × TokenKey}
    {a : Backend.Answer r} {w' : World}
    (hr : ∀ record, r = .createToken record → (record.userId, record.key) ≠ owner)
    (h : (unreliable mayFail).Answers r w a w') (hw : w.store.tokens.find? owner = none) :
    w'.store.tokens.find? owner = none :=
  preserved_of_answers (P := fun v => v.store.tokens.find? owner = none)
    (fun hv hdrifts => hdrifts.store ▸ hv) (unrecorded_answer hr) h hw

end World
end AccessControl
