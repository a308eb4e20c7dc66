import AccessControl.Permission.Catalog
import AccessControl.Proofs.Store.Data
import AccessControl.Proofs.Text.Blank
import AccessControl.Proofs.World.Reading

/-! # Rows, names and assignments are well formed

Administration only ever stores what makes sense (`Store.WellFormed`): rows name permissions of the
catalog, each once; a privileged role has nothing but prohibitions and any other role nothing but
grants; the kind of a role follows from its name, which is trimmed; and the roles of a user are
listed in ascending order.

The store itself checks little of this.  So a write is well formed if its arguments fit the store
(`Backend.Request.Fits`), and whoever asks for such writes only keeps the store well formed.
-/
namespace AccessControl

/-- A role has a name that may be stored, and is of the kind that the name says. -/
structure Role.NamedFor (name : String) (isPrivileged : Bool) : Prop where
  kind : isPrivileged = Role.isPrivilegedName name
  trimmed : trim name = name
  nonempty : name ≠ ""

/-- Rows that name permissions of the catalog, none of them twice. -/
structure Grant.Listed (catalog : Catalog) (rows : List Grant) : Prop where
  known : ∀ row ∈ rows, catalog.contains row.permission = true
  distinct : (rows.map (·.permission)).Nodup

/-- Rows for a role of a kind: prohibitions for a privileged role, grants for any other. -/
structure Grant.ListedFor (catalog : Catalog) (isPrivileged : Bool) (rows : List Grant) : Prop
    extends Grant.Listed catalog rows where
  kind : ∀ row ∈ rows, row.isGranted = !isPrivileged

theorem Grant.Listed.nil {catalog : Catalog} : Grant.Listed catalog [] :=
  ⟨List.forall_mem_nil _, List.nodup_nil⟩

namespace Store

/-- **A store is well formed.** -/
structure WellFormed (catalog : Catalog) (s : Store) : Prop where
  /-- Every role has a name that may be stored, and is of the kind that the name says. -/
  named : ∀ role record, s.findRole role = some record →
    Role.NamedFor record.name record.isPrivileged
  /-- Rows of roles name permissions of the catalog, each once. -/
  roleRows : ∀ role, Grant.Listed catalog (s.grantsOfRole role)
  /-- A privileged role has nothing but prohibitions, and any other role nothing but grants. -/
  kinds : ∀ role record, s.findRole role = some record → ∀ row ∈ s.grantsOfRole role,
    row.isGranted = !record.isPrivileged
  /-- Rows of users name permissions of the catalog, each once. -/
  userRows : ∀ user, Grant.Listed catalog (s.grantsOfUser user)
  /-- The roles of a user are listed in ascending order, each once. -/
  ascending : ∀ user, (s.rolesOfUser user).Pairwise (· < ·)
  /-- The roles of a user exist. -/
  exist : ∀ user, ∀ role ∈ s.rolesOfUser user, ∃ record, s.findRole role = some record

end Store

/-- **The arguments of a write fit the store**, as administration sees to it. -/
def Backend.Request.Fits (catalog : Catalog) (s : Store) : Backend.Request → Prop
  | .createRole new =>
    Role.NamedFor new.name new.isPrivileged ∧ Grant.ListedFor catalog new.isPrivileged new.grants
  | .updateRole role change =>
    Role.NamedFor change.name change.isPrivileged ∧
      match change.grants? with
      | some rows => Grant.ListedFor catalog change.isPrivileged rows
      | none => ∀ record, s.findRole role = some record →
        record.isPrivileged = change.isPrivileged
  | .replaceRoleGrants role rows => ∀ record, s.findRole role = some record →
    Grant.ListedFor catalog record.isPrivileged rows
  | .replaceUserGrants _ rows => Grant.Listed catalog rows
  | .replaceUserRoles _ roles => roles.Pairwise (· < ·)
  | _ => True

theorem Backend.Request.fits_of_writes_eq_false {catalog : Catalog} {s : Store}
    {r : Backend.Request} (h : r.writes = false) : r.Fits catalog s := by
  cases r <;> trivial

namespace Store.WellFormed
variable {catalog : Catalog} {s s' : Store} {role : RoleId} {user : UserId}

theorem empty (catalog : Catalog) : Store.empty.WellFormed catalog where
  named _ _ h := nomatch h
  roleRows _ := .nil
  kinds _ _ h := nomatch h
  userRows _ := .nil
  ascending _ := .nil
  exist _ _ h := absurd h List.not_mem_nil

/-- Whether a store is well formed follows from what it has about roles and users. -/
theorem of_same (hs : s.WellFormed catalog) (hroles : ∀ role, s'.findRole role = s.findRole role)
    (hrows : ∀ role, s'.grantsOfRole role = s.grantsOfRole role)
    (hgrants : ∀ user, s'.grantsOfUser user = s.grantsOfUser user)
    (hassigned : ∀ user, s'.rolesOfUser user = s.rolesOfUser user) : s'.WellFormed catalog where
  named role record h := hs.named role record ((hroles role).symm.trans h)
  roleRows role := (hrows role).symm ▸ hs.roleRows role
  kinds role record h row hrow := by
    rw [hroles] at h
    rw [hrows] at hrow
    exact hs.kinds role record h row hrow
  userRows user := (hgrants user).symm ▸ hs.userRows user
  ascending user := (hassigned user).symm ▸ hs.ascending user
  exist user role hrole := by
    rw [hassigned] at hrole
    rw [hroles]
    exact hs.exist user role hrole

/-- Roles may come and change as long as each of them is right and none goes. -/
theorem of_roles (hs : s.WellFormed catalog) (husers : s'.users = s.users)
    (hkept : ∀ role record, s.findRole role = some record →
      ∃ record', s'.findRole role = some record')
    (hrole : ∀ role, Grant.Listed catalog (s'.grantsOfRole role) ∧
      ∀ record, s'.findRole role = some record →
        Role.NamedFor record.name record.isPrivileged ∧
        ∀ row ∈ s'.grantsOfRole role, row.isGranted = !record.isPrivileged) :
    s'.WellFormed catalog where
  named role record h := ((hrole role).2 record h).1
  roleRows role := (hrole role).1
  kinds role record h := ((hrole role).2 record h).2
  userRows user := by
    rw [grantsOfUser, husers]
    exact hs.userRows user
  ascending user := by
    rw [rolesOfUser, husers]
    exact hs.ascending user
  exist user role hassigned := by
    rw [rolesOfUser, husers] at hassigned
    obtain ⟨record, hrecord⟩ := hs.exist user role hassigned
    exact hkept role record hrecord

/-- Users may come and change as long as each of them is right and all roles stay. -/
theorem of_users (hs : s.WellFormed catalog) (hroles : s'.roles = s.roles)
    (hrows : s'.roleGrants = s.roleGrants)
    (huser : ∀ user, Grant.Listed catalog (s'.grantsOfUser user) ∧
      (s'.rolesOfUser user).Pairwise (· < ·) ∧
      ∀ role ∈ s'.rolesOfUser user, ∃ record, s.findRole role = some record) :
    s'.WellFormed catalog where
  named role record h := by
    rw [findRole, hroles] at h
    exact hs.named role record h
  roleRows role := by
    rw [grantsOfRole, hrows]
    exact hs.roleRows role
  kinds role record h := by
    rw [findRole, hroles] at h
    rw [grantsOfRole, hrows]
    exact hs.kinds role record h
  userRows user := (huser user).1
  ascending user := (huser user).2.1
  exist user := by
    simp only [findRole, hroles]
    exact (huser user).2.2

theorem createRole {new : NewRole} {record : Role} (hs : s.WellFormed catalog)
    (hfits : Backend.Request.Fits catalog s (.createRole new))
    (h : s.createRole new = .ok (record, s')) : s'.WellFormed catalog := by
  obtain ⟨hnamed, hrows⟩ := hfits
  obtain ⟨⟨-, number, -, rfl⟩, rfl⟩ := createRole_ok h
  refine hs.of_roles rfl (fun role record hrecord => ?_) fun role => ?_
  · rw [findRole, Table.find?_insert]
    split
    · exact ⟨_, rfl⟩
    · exact ⟨record, hrecord⟩
  · simp only [findRole, grantsOfRole, Table.find?_insert]
    by_cases hrole : role = ⟨number⟩
    · rw [if_pos hrole, if_pos hrole]
      refine ⟨hrows.toListed, fun record hrecord => ?_⟩
      cases hrecord
      exact ⟨hnamed, hrows.kind⟩
    · rw [if_neg hrole, if_neg hrole]
      exact ⟨hs.roleRows role, fun record hrecord =>
        ⟨hs.named role record hrecord, hs.kinds role record hrecord⟩⟩

theorem updateRole {change : RoleChange} (hs : s.WellFormed catalog)
    (hfits : Backend.Request.Fits catalog s (.updateRole role change))
    (h : s.updateRole role change = .ok s') : s'.WellFormed catalog := by
  obtain ⟨hnamed, hrows⟩ := hfits
  have hsame := sameData_updateRole h
  obtain ⟨⟨-, hexists⟩, hs'⟩ := updateRole_ok h
  have husers : s'.users = s.users := hs' ▸ rfl
  obtain ⟨before, hbefore⟩ := Table.contains_iff.mp hexists
  have hafter := findRole_updateRole h hbefore
  have hgrants := grantsOfRole_updateRole h
  refine hs.of_roles husers (fun other record hrecord => ?_) fun other => ?_
  · by_cases hother : other = role
    · rw [hother]
      exact ⟨_, hafter⟩
    · obtain ⟨hfound, -⟩ := hsame (.rolePermissions other) (by simpa using hother)
      exact ⟨record, hfound.trans hrecord⟩
  · by_cases hother : other = role
    · rw [hother, hafter, hgrants]
      cases hnew : change.grants? with
      | some rows =>
        rw [hnew] at hrows
        refine ⟨hrows.toListed, fun record hrecord => ?_⟩
        cases hrecord
        exact ⟨hnamed, hrows.kind⟩
      | none =>
        -- The rows stay, and so does the kind of the role.
        rw [hnew] at hrows
        refine ⟨hs.roleRows role, fun record hrecord => ?_⟩
        cases hrecord
        exact ⟨hnamed, hrows before hbefore ▸ hs.kinds role before hbefore⟩
    · obtain ⟨hfound, hkept⟩ := hsame (.rolePermissions other) (by simpa using hother)
      rw [hfound, hkept]
      exact ⟨hs.roleRows other, fun record hrecord =>
        ⟨hs.named other record hrecord, hs.kinds other record hrecord⟩⟩

theorem replaceRoleGrants {rows : List Grant} (hs : s.WellFormed catalog)
    (hfits : Backend.Request.Fits catalog s (.replaceRoleGrants role rows))
    (h : s.replaceRoleGrants role rows = .ok s') : s'.WellFormed catalog := by
  obtain ⟨hexists, rfl⟩ := replaceRoleGrants_ok h
  obtain ⟨before, hbefore⟩ := Table.contains_iff.mp hexists
  have hrows := hfits before hbefore
  refine hs.of_roles rfl (fun other record hrecord => ⟨record, hrecord⟩) fun other => ?_
  rw [grantsOfRole, Table.find?_insert]
  by_cases hother : other = role
  · rw [if_pos hother]
    refine ⟨hrows.toListed, fun record hrecord => ?_⟩
    obtain rfl : record = before := by
      rw [hother] at hrecord
      exact Option.some.inj (hrecord.symm.trans hbefore)
    exact ⟨hs.named other record hrecord, hrows.kind⟩
  · rw [if_neg hother]
    exact ⟨hs.roleRows other, fun record hrecord =>
      ⟨hs.named other record hrecord, hs.kinds other record hrecord⟩⟩

/-- With a role go its rows, and it goes from the lists of those who have it. -/
theorem deleteRole {users : List UserId} (hs : s.WellFormed catalog)
    (h : s.deleteRole role = .ok (users, s')) : s'.WellFormed catalog := by
  constructor
  case named =>
    intro other record hrecord
    rw [findRole_deleteRole h] at hrecord
    split at hrecord
    · cases hrecord
    · exact hs.named other record hrecord
  case roleRows =>
    intro other
    rw [grantsOfRole_deleteRole h]
    split
    · exact .nil
    · exact hs.roleRows other
  case kinds =>
    intro other record hrecord row hrow
    rw [findRole_deleteRole h] at hrecord
    rw [grantsOfRole_deleteRole h] at hrow
    split at hrecord
    · cases hrecord
    · rename_i hother
      rw [if_neg hother] at hrow
      exact hs.kinds other record hrecord row hrow
  case userRows =>
    intro user
    rw [grantsOfUser_deleteRole h]
    exact hs.userRows user
  case ascending =>
    intro user
    rw [rolesOfUser_deleteRole h]
    exact (hs.ascending user).filter _
  case exist =>
    intro user other hother
    rw [rolesOfUser_deleteRole h, List.mem_filter, decide_eq_true_eq] at hother
    obtain ⟨record, hrecord⟩ := hs.exist user other hother.1
    refine ⟨record, ?_⟩
    rw [findRole_deleteRole h, if_neg hother.2]
    exact hrecord

/-- A user may get other rows that are listed, and other roles in ascending order that exist. -/
theorem modifyUser {change : StoredUser → StoredUser} (hs : s.WellFormed catalog)
    (h : s.modifyUser user change = .ok s')
    (hgrants : ∀ stored, (change stored).grants = stored.grants ∨
      Grant.Listed catalog (change stored).grants)
    (hassigned : ∀ stored, (change stored).roles = stored.roles ∨
      (change stored).roles.Pairwise (· < ·) ∧
        ∀ role ∈ (change stored).roles, s.roles.contains role = true) :
    s'.WellFormed catalog := by
  have hfind := find?_modifyUser h
  obtain ⟨hexists, rfl⟩ := modifyUser_ok h
  obtain ⟨before, hbefore⟩ := Table.contains_iff.mp hexists
  refine hs.of_users rfl rfl fun other => ?_
  rw [grantsOfUser, rolesOfUser, hfind]
  by_cases hother : other = user
  · have hrows := hs.userRows user
    have hascending := hs.ascending user
    have hexist := hs.exist user
    rw [grantsOfUser, hbefore] at hrows
    rw [rolesOfUser, hbefore] at hascending hexist
    rw [if_pos hother, hother, hbefore]
    dsimp only [Option.map_some]
    refine ⟨?_, ?_⟩
    · rcases hgrants before with hsame | hlisted
      · rw [hsame]
        exact hrows
      · exact hlisted
    · rcases hassigned before with hsame | ⟨hnew, hstored⟩
      · rw [hsame]
        exact ⟨hascending, hexist⟩
      · exact ⟨hnew, fun role hrole => Table.contains_iff.mp (hstored role hrole)⟩
  · rw [if_neg hother]
    exact ⟨hs.userRows other, hs.ascending other, hs.exist other⟩

/-- A new user has neither rows nor roles. -/
theorem createUser {name : String} {stamp : SecurityStamp} (hs : s.WellFormed catalog)
    (h : s.createUser name stamp = .ok (user, s')) : s'.WellFormed catalog := by
  obtain ⟨-, rfl⟩ := createUser_ok h
  refine hs.of_users rfl rfl fun other => ?_
  rw [grantsOfUser, rolesOfUser, Table.find?_insert]
  by_cases hother : other = user
  · rw [if_pos hother]
    exact ⟨.nil, .nil, fun _ hrole => absurd hrole List.not_mem_nil⟩
  · rw [if_neg hother]
    exact ⟨hs.userRows other, hs.ascending other, hs.exist other⟩

/-- **A write whose arguments fit keeps the store well formed.** -/
theorem wrote {r : Backend.Request} (hs : s.WellFormed catalog) (hfits : r.Fits catalog s)
    (h : r.Wrote s s') : s'.WellFormed catalog := by
  cases r with
  | createRole new =>
    obtain ⟨record, h⟩ := h
    exact hs.createRole hfits h
  | updateRole role change => exact hs.updateRole hfits h
  | replaceRoleGrants role rows => exact hs.replaceRoleGrants hfits h
  | deleteRole role =>
    obtain ⟨users, h⟩ := h
    exact hs.deleteRole h
  | replaceUserGrants user rows =>
    exact hs.modifyUser h (fun _ => .inr hfits) fun _ => .inl rfl
  | replaceUserRoles user roles =>
    exact hs.modifyUser (replaceUserRoles_ok h) (fun _ => .inl rfl)
      fun _ => .inr ⟨hfits, rolesExist_of_replaceUserRoles h⟩
  | createToken record =>
    obtain rfl := createToken_ok h
    exact hs.of_same (fun _ => rfl) (fun _ => rfl) (fun _ => rfl) fun _ => rfl
  | deleteToken user key =>
    obtain rfl := h
    exact hs.of_same (fun _ => rfl) (fun _ => rfl) (fun _ => rfl) fun _ => rfl
  | deleteTokens user =>
    obtain rfl := h
    exact hs.of_same (fun _ => rfl) (fun _ => rfl) (fun _ => rfl) fun _ => rfl
  | updateStamp user stamp => exact hs.modifyUser h (fun _ => .inl rfl) fun _ => .inl rfl
  | _ => exact h.elim

/-- **However a request is answered, the store stays well formed if its arguments fit.** -/
theorem answers {mayFail : Backend.Request → Bool} {r : Backend.Request} {a : Backend.Answer r}
    {w w' : World} (hs : w.store.WellFormed catalog) (hfits : r.Fits catalog w.store)
    (h : (World.unreliable mayFail).Answers r w a w') : w'.store.WellFormed catalog := by
  rcases World.store_of_answers_cases h with hsame | hwrote
  · rw [hsame]
    exact hs
  · exact hs.wrote hfits hwrote

end Store.WellFormed
end AccessControl
