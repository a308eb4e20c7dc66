import AccessControl.Proofs.Store.Writes

/-! # The parts of the store fit together

The store keeps its data in several tables that refer to one another.  `Store.Sound` says how they
fit: names are not used twice, roles and rows go together, whatever is referred to exists, and
every number in use was given.  Each write keeps this, for it checks everything before it changes
anything.

Numbers are given in ascending order and never again (`Store.Later`): a later store has no role
under an old number that was not there before.
-/
namespace AccessControl

namespace Table
variable {κ ν : Type} [DecidableEq κ] {t : Table κ ν} {k k' : κ} {v : ν}

/-! ## Which keys have values -/

theorem contains_iff : t.contains k = true ↔ ∃ v, t.find? k = some v := Option.isSome_iff_exists

theorem contains_of_find? (h : t.find? k = some v) : t.contains k = true := contains_iff.mpr ⟨v, h⟩

theorem mem_values_of_find? (h : t.find? k = some v) : v ∈ t.values :=
  List.mem_map.mpr ⟨(k, v), find?_eq_some_iff.mp h, rfl⟩

@[simp] theorem contains_insert :
    (t.insert k v).contains k' = (decide (k' = k) || t.contains k') := by
  rw [contains, find?_insert]
  by_cases h : k' = k
  · simp [h]
  · simp [h, contains]

@[simp] theorem contains_mapValues {f : κ → ν → ν} : (t.mapValues f).contains k = t.contains k := by
  simp [contains, find?_mapValues]

@[simp] theorem contains_modify {f : ν → ν} : (t.modify k f).contains k' = t.contains k' :=
  contains_mapValues

@[simp] theorem contains_filterKeys {p : κ → Bool} :
    (t.filterKeys p).contains k = (p k && t.contains k) := by
  rw [contains, find?_filterKeys]
  by_cases h : p k = true
  · simp [h, contains]
  · simp [h]

@[simp] theorem contains_erase : (t.erase k).contains k' = (!decide (k' = k) && t.contains k') :=
  contains_filterKeys

/-! ## Values with distinct names -/

/-- No two values have the same name. -/
def Distinguishes (name : ν → String) (t : Table κ ν) : Prop :=
  ∀ ⦃k k' v v'⦄, t.find? k = some v → t.find? k' = some v' → name v = name v' → k = k'

namespace Distinguishes
variable {name : ν → String}

theorem empty : Distinguishes name (∅ : Table κ ν) := by
  intro k k' v v' hv
  simp at hv

theorem insert (h : t.Distinguishes name) (hfree : ∀ v' ∈ t.values, name v' ≠ name v) :
    (t.insert k v).Distinguishes name := by
  intro a b x y hx hy hname
  rw [find?_insert] at hx hy
  by_cases ha : a = k <;> by_cases hb : b = k
  · rw [ha, hb]
  · rw [if_pos ha] at hx
    rw [if_neg hb] at hy
    cases hx
    exact absurd hname.symm (hfree y (mem_values_of_find? hy))
  · rw [if_neg ha] at hx
    rw [if_pos hb] at hy
    cases hy
    exact absurd hname (hfree x (mem_values_of_find? hx))
  · rw [if_neg ha] at hx
    rw [if_neg hb] at hy
    exact h hx hy hname

/-- Values may change, and some may go, as long as the others keep their names. -/
theorem of_find? {t' : Table κ ν} (h : t.Distinguishes name)
    (hkept : ∀ k v', t'.find? k = some v' → ∃ v, t.find? k = some v ∧ name v' = name v) :
    t'.Distinguishes name := by
  intro a b x y hx hy hname
  obtain ⟨x', hx', hxname⟩ := hkept a x hx
  obtain ⟨y', hy', hyname⟩ := hkept b y hy
  exact h hx' hy' (hxname.symm.trans (hname.trans hyname))

theorem mapValues {f : κ → ν → ν} (h : t.Distinguishes name)
    (hname : ∀ k v, name (f k v) = name v) : (t.mapValues f).Distinguishes name := by
  refine h.of_find? fun k v' hv' => ?_
  rw [find?_mapValues, Option.map_eq_some_iff] at hv'
  obtain ⟨v, hv, rfl⟩ := hv'
  exact ⟨v, hv, hname k v⟩

theorem erase (h : t.Distinguishes name) : (t.erase k).Distinguishes name := by
  refine h.of_find? fun k' v hv => ?_
  rw [find?_erase] at hv
  split at hv
  · cases hv
  · exact ⟨v, hv, rfl⟩

/-- One value may get a name that none of the others has. -/
theorem rename {new : String} {f : ν → ν} (h : t.Distinguishes name)
    (hfree : ∀ k' v', t.find? k' = some v' → k' ≠ k → name v' ≠ new)
    (hnew : ∀ v, name (f v) = new) : (t.modify k f).Distinguishes name := by
  intro a b x y hx hy hname
  rw [find?_modify] at hx hy
  by_cases ha : a = k <;> by_cases hb : b = k
  · rw [ha, hb]
  · rw [if_pos ha, Option.map_eq_some_iff] at hx
    rw [if_neg hb] at hy
    obtain ⟨v, -, rfl⟩ := hx
    exact absurd (hname.symm.trans (hnew v)) (hfree b y hy hb)
  · rw [if_neg ha] at hx
    rw [if_pos hb, Option.map_eq_some_iff] at hy
    obtain ⟨v, -, rfl⟩ := hy
    exact absurd (hname.trans (hnew v)) (hfree a x hx ha)
  · rw [if_neg ha] at hx
    rw [if_neg hb] at hy
    exact h hx hy hname

end Distinguishes
end Table

namespace Store
variable {s s' s'' : Store} {role : RoleId} {user : UserId}

/-- **How the parts of the store fit together.** -/
structure Sound (s : Store) : Prop where
  /-- No two roles have the same name. -/
  roleNames : s.roles.Distinguishes (·.name)
  /-- No two users have the same name. -/
  userNames : s.users.Distinguishes (·.name)
  /-- There are rows, though it be none, exactly for the roles that exist. -/
  rows : ∀ role, s.roleGrants.contains role = s.roles.contains role
  /-- A role is stored under its own number. -/
  ownNumber : ∀ role record, s.roles.find? role = some record → record.id = role
  /-- The numbers of roles were given. -/
  roleNumbers : ∀ role, s.roles.contains role = true → 1 ≤ role.number ∧ role.number ≤ s.lastRole
  /-- The numbers of users were given. -/
  userNumbers : ∀ user, s.users.contains user = true → 1 ≤ user.number ∧ user.number ≤ s.lastUser
  /-- A role that a user has exists. -/
  rolesExist : ∀ user stored, s.users.find? user = some stored →
    ∀ role ∈ stored.roles, s.roles.contains role = true
  /-- A token is recorded for a user who exists. -/
  ownersExist : ∀ user key, s.tokens.contains (user, key) = true → s.users.contains user = true
  /-- Counting began at zero. -/
  counted : 0 ≤ s.lastRole ∧ 0 ≤ s.lastUser

/-- A store that comes later: numbers are given upwards, users stay, and an old number has a role
only if it had one before. -/
structure Later (s s' : Store) : Prop where
  lastRole : s.lastRole ≤ s'.lastRole
  lastUser : s.lastUser ≤ s'.lastUser
  users : ∀ user, s.users.contains user = true → s'.users.contains user = true
  roles : ∀ role : RoleId, role.number ≤ s.lastRole → s'.roles.contains role = true →
    s.roles.contains role = true

theorem Later.refl (s : Store) : s.Later s :=
  ⟨Int64.le_refl _, Int64.le_refl _, fun _ h => h, fun _ _ h => h⟩

theorem Later.trans (h : s.Later s') (h' : s'.Later s'') : s.Later s'' where
  lastRole := Int64.le_trans h.lastRole h'.lastRole
  lastUser := Int64.le_trans h.lastUser h'.lastUser
  users user huser := h'.users user (h.users user huser)
  roles role hold hrole := by
    have hold' : role.number ≤ s'.lastRole := Int64.le_trans hold h.lastRole
    exact h.roles role hold (h'.roles role hold' hrole)

/-- What stays in the tables of roles and users, and the counters, makes a store a later one. -/
theorem Later.of_contains (hroles : ∀ role, s'.roles.contains role = true →
      s.roles.contains role = true)
    (husers : ∀ user, s'.users.contains user = s.users.contains user)
    (hlastRole : s'.lastRole = s.lastRole) (hlastUser : s'.lastUser = s.lastUser) :
    s.Later s' where
  lastRole := hlastRole ▸ Int64.le_refl _
  lastUser := hlastUser ▸ Int64.le_refl _
  users user huser := (husers user).trans huser
  roles role _ := hroles role

/-! ## The next number -/

section Next
variable {last number : Int64}

theorem lt_of_next (h : next last = .ok number) : last < number := by
  have hnumber := next_ok h
  rw [Int64.lt_iff_toInt_lt]
  omega

theorem le_of_next (h : next last = .ok number) : last ≤ number := Int64.le_of_lt (lt_of_next h)

theorem one_le_of_next (h : next last = .ok number) (hlast : 0 ≤ last) : 1 ≤ number := by
  have hnumber := next_ok h
  have hzero : (0 : Int64).toInt = 0 := rfl
  have hone : (1 : Int64).toInt = 1 := rfl
  rw [Int64.le_iff_toInt_le] at hlast ⊢
  omega

end Next

/-! ## Every write keeps the store sound -/

namespace Sound

theorem empty : Store.empty.Sound where
  roleNames := .empty
  userNames := .empty
  rows _ := rfl
  ownNumber _ _ h := by simp [Store.empty] at h
  roleNumbers _ h := by simp [Store.empty, Table.contains] at h
  userNumbers _ h := by simp [Store.empty, Table.contains] at h
  rolesExist _ _ h := by simp [Store.empty] at h
  ownersExist _ _ h := by simp [Store.empty, Table.contains] at h
  counted := by decide

theorem createUser {name : String} {stamp : SecurityStamp} (hs : s.Sound)
    (h : s.createUser name stamp = .ok (user, s')) : s'.Sound := by
  obtain ⟨⟨hfree, hnext⟩, rfl⟩ := createUser_ok h
  refine { hs with userNames := ?_, userNumbers := ?_, rolesExist := ?_, ownersExist := ?_,
                   counted := ?_ }
  · exact hs.userNames.insert hfree
  · intro other hother
    rw [Table.contains_insert] at hother
    by_cases heq : other = user
    · rw [heq]
      exact ⟨one_le_of_next hnext hs.counted.2, Int64.le_refl _⟩
    · obtain ⟨hone, hlast⟩ := hs.userNumbers other (by simpa [heq] using hother)
      exact ⟨hone, Int64.le_trans hlast (le_of_next hnext)⟩
  · intro other stored hstored
    rw [Table.find?_insert] at hstored
    split at hstored
    · cases hstored
      simp
    · exact hs.rolesExist other stored hstored
  · intro other key hkey
    rw [Table.contains_insert, hs.ownersExist other key hkey, Bool.or_true]
  · exact ⟨hs.counted.1, Int64.le_trans hs.counted.2 (le_of_next hnext)⟩

/-- A user may change in all but the name, as long as all roles of the user exist. -/
theorem modifyUser {change : StoredUser → StoredUser} (hs : s.Sound)
    (h : s.modifyUser user change = .ok s') (hname : ∀ stored, (change stored).name = stored.name)
    (hroles : ∀ stored, ∀ role ∈ (change stored).roles,
      role ∈ stored.roles ∨ s.roles.contains role = true) : s'.Sound := by
  obtain ⟨-, rfl⟩ := modifyUser_ok h
  refine { hs with userNames := ?_, userNumbers := ?_, rolesExist := ?_, ownersExist := ?_ }
  · refine hs.userNames.mapValues fun other stored => ?_
    split
    · exact hname stored
    · rfl
  · intro other hother
    exact hs.userNumbers other (by simpa using hother)
  · intro other stored hstored role hrole
    rw [Table.find?_modify] at hstored
    split at hstored
    · obtain ⟨before, hbefore, rfl⟩ := Option.map_eq_some_iff.mp hstored
      rcases hroles before role hrole with hold | hexists
      · exact hs.rolesExist other before hbefore role hold
      · exact hexists
    · exact hs.rolesExist other stored hstored role hrole
  · intro other key hkey
    simpa using hs.ownersExist other key hkey

theorem updateStamp {stamp : SecurityStamp} (hs : s.Sound)
    (h : s.updateStamp user stamp = .ok s') : s'.Sound :=
  hs.modifyUser h (fun _ => rfl) fun _ _ hrole => .inl hrole

theorem replaceUserGrants {grants : List Grant} (hs : s.Sound)
    (h : s.replaceUserGrants user grants = .ok s') : s'.Sound :=
  hs.modifyUser h (fun _ => rfl) fun _ _ hrole => .inl hrole

theorem replaceUserRoles {roles : List RoleId} (hs : s.Sound)
    (h : s.replaceUserRoles user roles = .ok s') : s'.Sound :=
  hs.modifyUser (replaceUserRoles_ok h) (fun _ => rfl)
    fun _ role hrole => .inr (rolesExist_of_replaceUserRoles h role hrole)

theorem createRole {new : NewRole} {record : Role} (hs : s.Sound)
    (h : s.createRole new = .ok (record, s')) : s'.Sound := by
  obtain ⟨⟨hfree, number, hnext, rfl⟩, rfl⟩ := createRole_ok h
  refine { hs with roleNames := ?_, rows := ?_, ownNumber := ?_, roleNumbers := ?_,
                   rolesExist := ?_, counted := ?_ }
  · exact hs.roleNames.insert hfree
  · intro role
    rw [Table.contains_insert, Table.contains_insert, hs.rows]
  · intro role record hrecord
    rw [Table.find?_insert] at hrecord
    split at hrecord
    · rename_i hrole
      cases hrecord
      exact hrole.symm
    · exact hs.ownNumber role record hrecord
  · intro role hrole
    rw [Table.contains_insert] at hrole
    by_cases heq : role = ⟨number⟩
    · rw [heq]
      exact ⟨one_le_of_next hnext hs.counted.1, Int64.le_refl _⟩
    · obtain ⟨hone, hlast⟩ := hs.roleNumbers role (by simpa [heq] using hrole)
      exact ⟨hone, Int64.le_trans hlast (le_of_next hnext)⟩
  · intro user stored hstored role hrole
    rw [Table.contains_insert, hs.rolesExist user stored hstored role hrole, Bool.or_true]
  · exact ⟨Int64.le_trans hs.counted.1 (le_of_next hnext), hs.counted.2⟩

theorem updateRole {change : RoleChange} (hs : s.Sound)
    (h : s.updateRole role change = .ok s') : s'.Sound := by
  obtain ⟨⟨hfree, hexists⟩, rfl⟩ := updateRole_ok h
  refine { hs with roleNames := ?_, rows := ?_, ownNumber := ?_, roleNumbers := ?_,
                   rolesExist := ?_ }
  · -- The name is free beside the role itself, which may keep it.
    refine hs.roleNames.rename (fun other record hother hne hname => ?_) fun _ => rfl
    refine Bool.false_ne_true (hfree.symm.trans (List.any_eq_true.mpr ?_))
    refine ⟨record, Table.mem_values_of_find? hother, ?_⟩
    simp [hs.ownNumber other record hother, hne, hname]
  · intro other
    cases change.grants? with
    | none => simpa using hs.rows other
    | some grants =>
      by_cases heq : other = role
      · simp [heq, hexists]
      · simp [heq, hs.rows]
  · intro other record hrecord
    rw [Table.find?_modify] at hrecord
    split at hrecord
    · obtain ⟨before, hbefore, rfl⟩ := Option.map_eq_some_iff.mp hrecord
      exact hs.ownNumber other before hbefore
    · exact hs.ownNumber other record hrecord
  · intro other hother
    exact hs.roleNumbers other (by simpa using hother)
  · intro user stored hstored other hother
    simpa using hs.rolesExist user stored hstored other hother

theorem replaceRoleGrants {grants : List Grant} (hs : s.Sound)
    (h : s.replaceRoleGrants role grants = .ok s') : s'.Sound := by
  obtain ⟨hexists, rfl⟩ := replaceRoleGrants_ok h
  refine { hs with rows := ?_ }
  intro other
  by_cases heq : other = role
  · simp [heq, hexists]
  · simp [heq, hs.rows]

/-- A deleted role goes with its rows, and from everyone who has it. -/
theorem deleteRole {users : List UserId} (hs : s.Sound)
    (h : s.deleteRole role = .ok (users, s')) : s'.Sound := by
  obtain ⟨-, rfl⟩ := deleteRole_ok h
  refine { hs with roleNames := ?_, userNames := ?_, rows := ?_, ownNumber := ?_,
                   roleNumbers := ?_, userNumbers := ?_, rolesExist := ?_, ownersExist := ?_ }
  · exact hs.roleNames.erase
  · exact hs.userNames.mapValues fun _ _ => rfl
  · intro other
    rw [Table.contains_erase, Table.contains_erase, hs.rows]
  · intro other record hrecord
    rw [Table.find?_erase] at hrecord
    split at hrecord
    · cases hrecord
    · exact hs.ownNumber other record hrecord
  · intro other hother
    rw [Table.contains_erase, Bool.and_eq_true] at hother
    exact hs.roleNumbers other hother.2
  · intro user huser
    exact hs.userNumbers user (by simpa using huser)
  · intro user stored hstored other hother
    rw [Table.find?_mapValues] at hstored
    obtain ⟨before, hbefore, rfl⟩ := Option.map_eq_some_iff.mp hstored
    obtain ⟨hhad, hne⟩ := List.mem_filter.mp hother
    simpa [hs.rolesExist user before hbefore other hhad] using hne
  · intro user key hkey
    simpa using hs.ownersExist user key hkey

/-- Token records may come for users who exist, and may always go. -/
theorem withTokens {tokens : Table (UserId × TokenKey) Instant} (hs : s.Sound)
    (h : ∀ user key, tokens.contains (user, key) = true →
      s.tokens.contains (user, key) = true ∨ s.users.contains user = true) :
    { s with tokens }.Sound := by
  refine { hs with ownersExist := ?_ }
  intro user key hkey
  rcases h user key hkey with hold | hexists
  · exact hs.ownersExist user key hold
  · exact hexists

theorem createToken {record : Token.Record} (hs : s.Sound)
    (h : s.createToken record = .ok s') : s'.Sound := by
  obtain rfl := createToken_ok h
  refine hs.withTokens fun user key hkey => ?_
  rw [Table.contains_insert] at hkey
  by_cases heq : (user, key) = (record.userId, record.key)
  · obtain ⟨rfl, -⟩ := Prod.mk.inj heq
    exact .inr (userExists_of_createToken h)
  · exact .inl (by simpa [heq] using hkey)

theorem deleteToken (hs : s.Sound) (key : TokenKey) : (s.deleteToken user key).2.Sound := by
  refine hs.withTokens fun other otherKey hkey => .inl ?_
  rw [Table.contains_erase, Bool.and_eq_true] at hkey
  exact hkey.2

theorem deleteTokens (hs : s.Sound) : (s.deleteTokens user).2.Sound := by
  refine hs.withTokens fun other otherKey hkey => .inl ?_
  rw [Table.contains_filterKeys, Bool.and_eq_true] at hkey
  exact hkey.2

end Sound

/-! ## Every write gives a later store -/

namespace Later

theorem createUser {name : String} {stamp : SecurityStamp}
    (h : s.createUser name stamp = .ok (user, s')) : s.Later s' := by
  obtain ⟨⟨-, hnext⟩, rfl⟩ := createUser_ok h
  refine ⟨Int64.le_refl _, le_of_next hnext, fun other hother => ?_, fun _ _ hrole => hrole⟩
  rw [Table.contains_insert, hother, Bool.or_true]

theorem modifyUser {change : StoredUser → StoredUser} (h : s.modifyUser user change = .ok s') :
    s.Later s' := by
  obtain ⟨-, rfl⟩ := modifyUser_ok h
  exact .of_contains (fun _ hrole => hrole) (fun _ => Table.contains_modify) rfl rfl

/-- A new role has a number above all that were given. -/
theorem createRole {new : NewRole} {record : Role} (h : s.createRole new = .ok (record, s')) :
    s.Later s' := by
  obtain ⟨⟨-, number, hnext, rfl⟩, rfl⟩ := createRole_ok h
  refine ⟨le_of_next hnext, Int64.le_refl _, fun _ huser => huser, fun role hold hrole => ?_⟩
  rw [Table.contains_insert] at hrole
  have hne : role ≠ ⟨number⟩ := by
    rintro rfl
    exact Int64.not_lt.mpr hold (lt_of_next hnext)
  simpa [hne] using hrole

theorem updateRole {change : RoleChange} (h : s.updateRole role change = .ok s') : s.Later s' := by
  obtain ⟨-, rfl⟩ := updateRole_ok h
  exact .of_contains (fun _ hrole => by simpa using hrole) (fun _ => rfl) rfl rfl

theorem replaceRoleGrants {grants : List Grant} (h : s.replaceRoleGrants role grants = .ok s') :
    s.Later s' := by
  obtain ⟨-, rfl⟩ := replaceRoleGrants_ok h
  exact .of_contains (fun _ hrole => hrole) (fun _ => rfl) rfl rfl

theorem deleteRole {users : List UserId} (h : s.deleteRole role = .ok (users, s')) :
    s.Later s' := by
  obtain ⟨-, rfl⟩ := deleteRole_ok h
  refine .of_contains (fun other hother => ?_) (fun _ => Table.contains_mapValues) rfl rfl
  rw [Table.contains_erase, Bool.and_eq_true] at hother
  exact hother.2

theorem createToken {record : Token.Record} (h : s.createToken record = .ok s') :
    s.Later s' := by
  obtain rfl := createToken_ok h
  exact .of_contains (fun _ hrole => hrole) (fun _ => rfl) rfl rfl

theorem deleteToken (s : Store) (user : UserId) (key : TokenKey) :
    s.Later (s.deleteToken user key).2 :=
  .of_contains (fun _ hrole => hrole) (fun _ => rfl) rfl rfl

theorem deleteTokens (s : Store) (user : UserId) : s.Later (s.deleteTokens user).2 :=
  .of_contains (fun _ hrole => hrole) (fun _ => rfl) rfl rfl

end Later

/-! ## A step of a store -/

/-- What one step may make of a store: a later store, and a sound one if it was sound. -/
structure Proceeds (s s' : Store) : Prop where
  sound : s.Sound → s'.Sound
  later : s.Later s'

namespace Proceeds

theorem refl (s : Store) : s.Proceeds s := ⟨id, .refl s⟩

theorem of_eq (h : s' = s) : s.Proceeds s' := h ▸ refl s

theorem trans (h : s.Proceeds s') (h' : s'.Proceeds s'') : s.Proceeds s'' :=
  ⟨h'.sound ∘ h.sound, h.later.trans h'.later⟩

end Proceeds

/-! ## Numbers are not given again -/

/-- A role that has been deleted is not there, and its number was given. -/
theorem deleted_of_deleteRole {users : List UserId} (hs : s.Sound)
    (h : s.deleteRole role = .ok (users, s')) :
    s'.roles.contains role = false ∧ role.number ≤ s'.lastRole := by
  have hexists : s.roles.contains role = true := by
    rw [Store.deleteRole] at h
    split at h
    · assumption
    · cases h
  obtain ⟨-, rfl⟩ := deleteRole_ok h
  refine ⟨?_, (hs.roleNumbers role hexists).2⟩
  rw [Table.contains_erase, decide_eq_true rfl, Bool.not_true, Bool.false_and]

/-- **A number that was given before is not given to a new role.** -/
theorem ne_of_createRole {new : NewRole} {record : Role} (hold : role.number ≤ s.lastRole)
    (h : s.createRole new = .ok (record, s')) : record.id ≠ role := by
  obtain ⟨⟨-, number, hnext, rfl⟩, -⟩ := createRole_ok h
  rintro rfl
  exact Int64.not_lt.mpr hold (lt_of_next hnext)

end Store
end AccessControl
