import AccessControl.Proofs.Administration.Renaming
import AccessControl.Proofs.Services.Authorized

/-! # Users hold what was given

The rows with which a user is given an exact set of permissions are computed against what the
user's roles hold at the time (`roleDerived`), and a resolution later computes with the rows and
the roles.  The two cancel out, whatever rows the user had before: a row stands exactly where the
roles decide otherwise (`mem_rowsGiving_iff`), so the user has exactly what was given
(`Store.userHas_iff_of_needed`), and no row can be spared (`Store.mem_of_needed`).
-/
namespace AccessControl

namespace Store
variable {s s' : Store} {catalog : Catalog} {user : UserId} {name : String} {granted : List String}

/-- **One of the roles of a user gives a permission.** -/
def RolesGive (s : Store) (user : UserId) (name : String) : Prop :=
  ∃ role ∈ s.rolesOfUser user, s.RoleGives role name

/-- **The smallest rows that give a user a list of permissions**: one that gives each listed
permission that no role gives, and one that prohibits each permission of the catalog that a role
gives and that is not listed. -/
def Needed (s : Store) (catalog : Catalog) (user : UserId) (granted : List String) (row : Grant) :
    Prop :=
  row.permission ∈ catalog.nameList ∧
    ((row.isGranted = true ∧ row.permission ∈ granted ∧ ¬s.RolesGive user row.permission) ∨
      (row.isGranted = false ∧ row.permission ∉ granted ∧ s.RolesGive user row.permission))

/-- **With exactly the needed rows a user has what is listed**, and nothing else of the catalog. -/
theorem userHas_iff_of_needed (hname : name ∈ catalog.nameList)
    (hroles : s'.RolesGive user name ↔ s.RolesGive user name)
    (hrows : ∀ row, row ∈ s'.grantsOfUser user ↔ s.Needed catalog user granted row) :
    s'.UserHas user name ↔ name ∈ granted := by
  have hgranting : ⟨name, true⟩ ∈ s'.grantsOfUser user ↔
      name ∈ granted ∧ ¬s.RolesGive user name := by
    rw [hrows, Needed]
    simp [hname]
  have hprohibiting : ⟨name, false⟩ ∈ s'.grantsOfUser user ↔
      name ∉ granted ∧ s.RolesGive user name := by
    rw [hrows, Needed]
    simp [hname]
  show (⟨name, false⟩ ∉ s'.grantsOfUser user ∧
    (⟨name, true⟩ ∈ s'.grantsOfUser user ∨ s'.RolesGive user name)) ↔ _
  rw [hgranting, hprohibiting, hroles]
  by_cases hlisted : name ∈ granted <;> by_cases hgive : s.RolesGive user name <;>
    simp [hlisted, hgive]

/-- **No needed row can be spared**: whatever rows give a user exactly what is listed have it. -/
theorem mem_of_needed {row : Grant} (hneeded : s.Needed catalog user granted row)
    (hroles : s'.RolesGive user row.permission ↔ s.RolesGive user row.permission)
    (hhas : s'.UserHas user row.permission ↔ row.permission ∈ granted) :
    row ∈ s'.grantsOfUser user := by
  obtain ⟨name, flag⟩ := row
  obtain ⟨-, ⟨rfl, hlisted, hgive⟩ | ⟨rfl, hlisted, hgive⟩⟩ := hneeded
  · -- The user has it although no role gives it.
    obtain ⟨-, hgiven | hrole⟩ := hhas.mpr hlisted
    · exact hgiven
    · exact absurd (hroles.mp hrole) hgive
  · -- The user has it not although a role gives it.
    refine Decidable.byContradiction fun hallowed => hlisted (hhas.mp ?_)
    exact ⟨hallowed, .inr (hroles.mpr hgive)⟩

end Store

namespace Administration
open World Outside Program Authorization Services
variable {α : Type} {d : Deployment} {actor user : UserId} {granted : List String} {w w' : World}
  {s s' : Store}

/-! ## What is computed -/

theorem overrideFor_eq_some_iff {wanted derived : NameSet} {name : String} {row : Grant} :
    overrideFor wanted derived name = some row ↔
      (row = .granting name ∧ name ∈ wanted ∧ name ∉ derived) ∨
      (row = .prohibiting name ∧ name ∉ wanted ∧ name ∈ derived) := by
  rw [eq_comm (a := row), eq_comm (a := row)]
  by_cases hwanted : name ∈ wanted <;> by_cases hderived : name ∈ derived <;>
    simp [overrideFor, SortedSet.contains, hwanted, hderived]

/-- The union of some sets has what one of them has. -/
theorem mem_foldl_union {sets : List NameSet} {start : NameSet} {name : String} :
    name ∈ sets.foldl (fun all set => set ∪ all) start ↔
      name ∈ start ∨ ∃ set ∈ sets, name ∈ set := by
  induction sets generalizing start with
  | nil => simp
  | cons set sets ih =>
    rw [List.foldl_cons, ih, SortedSet.mem_union]
    simp only [List.mem_cons, exists_eq_or_imp]
    rw [or_comm (a := name ∈ set), or_assoc]

/-- The permissions that the roles of a user hold, as they follow from a store. -/
def derivedOf (s : Store) (catalog : Catalog) (user : UserId) : NameSet :=
  (s.roleSets catalog (s.rolesOfUser user)).foldl (fun all role => role ∪ all) ∅

theorem mem_derivedOf_iff {name : String} (hname : name ∈ d.catalog.nameList) :
    name ∈ derivedOf s d.catalog user ↔ s.RolesGive user name := by
  rw [derivedOf, mem_foldl_union,
    Store.exists_mem_roleSets_iff (Catalog.contains_iff.mpr hname), Store.RolesGive]
  simp

/-- The rows that are written for a list. -/
def rowsGiving (s : Store) (catalog : Catalog) (user : UserId) (granted : List String) :
    List Grant :=
  catalog.nameList.filterMap (overrideFor (.ofList granted) (derivedOf s catalog user))

/-- **The rows that are written are the needed ones.** -/
theorem mem_rowsGiving_iff {row : Grant} :
    row ∈ rowsGiving s d.catalog user granted ↔ s.Needed d.catalog user granted row := by
  rw [rowsGiving, List.mem_filterMap]
  simp only [overrideFor_eq_some_iff, SortedSet.mem_ofList]
  constructor
  · rintro ⟨name, hname, ⟨rfl, hlisted, hderived⟩ | ⟨rfl, hlisted, hderived⟩⟩
    · exact ⟨hname, .inl ⟨rfl, hlisted, fun h => hderived ((mem_derivedOf_iff hname).mpr h)⟩⟩
    · exact ⟨hname, .inr ⟨rfl, hlisted, (mem_derivedOf_iff hname).mp hderived⟩⟩
  · obtain ⟨name, flag⟩ := row
    rintro ⟨hname, ⟨rfl, hlisted, hgive⟩ | ⟨rfl, hlisted, hgive⟩⟩
    · exact ⟨name, hname, .inl ⟨rfl, hlisted, fun h => hgive ((mem_derivedOf_iff hname).mp h)⟩⟩
    · exact ⟨name, hname, .inr ⟨rfl, hlisted, (mem_derivedOf_iff hname).mpr hgive⟩⟩

/-! ## What is written -/

theorem learns_roleDerived :
    Learns (ByStores Backend.Request.mayBeLost) (Reads Backend.Request.mayBeLost s)
      (roleDerived d user) (.ok (derivedOf s d.catalog user)) := by
  have hroles : Learns (ByStores Backend.Request.mayBeLost) (Reads Backend.Request.mayBeLost s)
      (Backend.userRoles user) (.ok (s.rolesOfUser user)) :=
    ensures_giving (I := Backend) (r := .userRoles user) fun _ h => Gives.concludes h
  rw [roleDerived]
  apply hroles.bind
  apply (learns_loadRoles (fun _ h => h) _).bind
  exact learns_pure _

theorem asks_roleDerived_quiet :
    (roleDerived d user).run.Asks fun r : Backend.Request => r.writes = false := by
  have hloads : ∀ roles, Resolves d ⟨0⟩ (loadRoles d roles).run := resolves_loadRoles
  exact Asks.run_bind (asks_backend (.userRoles user) rfl) fun roles =>
    Asks.run_bind (hloads roles).asks fun _ => asks_run_pure _

/-- **What the roles of a user hold is computed from the store**, which stays as it is. -/
theorem ensures_roleDerived :
    lossy.Ensures (roleDerived d user).run w fun r v =>
      v.store = w.store ∧ r = .ok (derivedOf w.store d.catalog user) := by
  intro t r v ht hf
  obtain ⟨hstore, hreads⟩ := follows_reads hf (asks_roleDerived_quiet t r ht)
  exact ⟨hstore, (Ensures.of_giving learns_roleDerived ht hreads).eq_of_lossy⟩

/-- **Replacing the rows of a user is decided by whether the user exists.** -/
theorem ensures_replaceOverrides {rows : List Grant} (hw : w.store = s) :
    lossy.Ensures (replaceOverrides user rows).run w
      (Decided (s.users.contains user = true)
        (fun _ s' => s.replaceUserGrants user rows = .ok s') s) := by
  rw [replaceOverrides, ensures_run_bind]
  refine ensures_write (fun _ => ensures_stored (r := .replaceUserGrants user rows) rfl)
    (fun v hwritten => ?_) fun v failure hrefused hv => ?_
  · dsimp only
    rw [ensures_run_lift]
    refine ensures_remove rfl fun _ hremoved _ => ?_
    rw [hw] at hwritten
    refine .inl ⟨(Store.modifyUser_ok hwritten).1, (), rfl, ?_⟩
    exact hremoved.store ▸ hwritten
  · rw [hw] at hrefused hv
    refine .inr ⟨fun h => ?_, ⟨failure, rfl⟩, hv⟩
    rw [Store.replaceUserGrants, Store.modifyUser, if_pos h] at hrefused
    cases hrefused

/-- **Giving a user a list is decided by the names and by whether the user exists**, and writes
the rows for the list. -/
theorem ensures_setUserGrantedPermissions (hw : w.Coherent d.catalog) :
    lossy.Ensures (setUserGrantedPermissions d actor user granted).run w
      (Decided (Permission.changeUserPermissions ∈ w.store.permissions d.catalog actor ∧
          (∀ name ∈ granted, name ∈ d.catalog.nameList) ∧ w.store.users.contains user = true)
        (fun _ s' => w.store.replaceUserGrants user
          (rowsGiving w.store d.catalog user granted) = .ok s') w.store) := by
  refine ensures_gated hw fun v hv => ?_
  refine ensures_checked hv Catalog.ensureKnown_ofList_iff fun _ => ?_
  rw [ensures_run_bind]
  refine ensures_roleDerived.mono fun r m hr => ?_
  obtain ⟨hm, rfl⟩ := hr
  rw [hv] at hm ⊢
  exact ensures_replaceOverrides hm

/-! ## What the user has then -/

/-- **Two worlds, of which in the second a user has been given exactly a list of permissions.** -/
structure GivenExactly (d : Deployment) (user : UserId) (granted : List String) (w w' : World) :
    Prop where
  /-- The user resolves to the set of the list. -/
  resolved : lossy.Yields (resolveUser d user).run w' fun r _ =>
    ∃ held : NameSet, r = .ok held ∧ ∀ name, name ∈ held ↔ name ∈ granted
  /-- Every decision about the user says the same. -/
  decided : ∀ name, lossy.Yields (isGranted d user name).run w' fun r _ =>
    ∃ has : Bool, r = .ok has ∧ (has = true ↔ name ∈ granted)
  /-- The rows of the user are the needed ones. -/
  rows : ∀ row, row ∈ w'.store.grantsOfUser user ↔ w.store.Needed d.catalog user granted row
  /-- No permission has two rows. -/
  distinct : ((w'.store.grantsOfUser user).map (·.permission)).Nodup
  /-- Whatever rows would have given the user the list have all of these among them. -/
  smallest : ∀ (rows : List Grant) (s : Store), w.store.replaceUserGrants user rows = .ok s →
    (∀ name, name ∈ s.permissions d.catalog user ↔ name ∈ granted) →
    ∀ row ∈ w'.store.grantsOfUser user, row ∈ rows
  /-- Every other user resolves as before. -/
  others : ∀ other, other ≠ user → ∃ answer : Except Failure NameSet,
    lossy.Yields (resolveUser d other).run w (fun r _ => r = answer) ∧
    lossy.Yields (resolveUser d other).run w' (fun r _ => r = answer)
  /-- Every role resolves as before. -/
  roles : ∀ role, ∃ answer : Except Failure NameSet,
    lossy.Yields (resolveRole d role).run w (fun r _ => r = answer) ∧
    lossy.Yields (resolveRole d role).run w' (fun r _ => r = answer)

/-- New rows of a user change no other data. -/
theorem sameData_replaceUserGrants {rows : List Grant}
    (h : s.replaceUserGrants user rows = .ok s') (key : CacheKey)
    (hkey : key ≠ .userPermissions user) : s.SameData s' key :=
  Store.sameData_modifyUser h key (.inr fun _ => rfl) (.inl hkey)

/-- New rows of a user change nothing about roles. -/
theorem rolesGive_replaceUserGrants {rows : List Grant} {name : String}
    (h : s.replaceUserGrants user rows = .ok s') :
    s'.RolesGive user name ↔ s.RolesGive user name := by
  have hroles : s'.rolesOfUser user = s.rolesOfUser user :=
    sameData_replaceUserGrants h (.userRoles user) (by simp)
  have hgives : ∀ role, s'.RoleGives role name ↔ s.RoleGives role name := by
    intro role
    exact Store.roleGives_of_sameData (sameData_replaceUserGrants h (.rolePermissions role) (by simp))
  rw [Store.RolesGive, Store.RolesGive, hroles]
  simp only [hgives]

theorem grantsOfUser_replaceUserGrants {rows : List Grant}
    (h : s.replaceUserGrants user rows = .ok s') : s'.grantsOfUser user = rows := by
  have hexists := (Store.modifyUser_ok h).1
  obtain ⟨stored, hstored⟩ := Table.contains_iff.mp hexists
  rw [Store.grantsOfUser, Store.find?_modifyUser h, if_pos rfl, hstored]
  rfl

/-- **A user with the rows for a list of known names has exactly the list.** -/
theorem mem_permissions_iff_of_rowsGiving {name : String}
    (hknown : ∀ name ∈ granted, name ∈ d.catalog.nameList)
    (h : s.replaceUserGrants user (rowsGiving s d.catalog user granted) = .ok s') :
    name ∈ s'.permissions d.catalog user ↔ name ∈ granted := by
  rw [Store.mem_permissions_iff]
  constructor
  · rintro ⟨hname, hhas⟩
    refine (Store.userHas_iff_of_needed hname (rolesGive_replaceUserGrants h) fun row => ?_).mp hhas
    rw [grantsOfUser_replaceUserGrants h]
    exact mem_rowsGiving_iff
  · intro hlisted
    refine ⟨hknown name hlisted, ?_⟩
    refine (Store.userHas_iff_of_needed (hknown name hlisted) (rolesGive_replaceUserGrants h)
      fun row => ?_).mpr hlisted
    rw [grantsOfUser_replaceUserGrants h]
    exact mem_rowsGiving_iff

theorem givenExactly_of_replaceUserGrants (hw' : w'.Coherent d.catalog)
    (hknown : ∀ name ∈ granted, name ∈ d.catalog.nameList)
    (h : w.store.replaceUserGrants user (rowsGiving w.store d.catalog user granted) =
      .ok w'.store) : GivenExactly d user granted w w' where
  resolved := yields_of_ensures (ensures_resolveUser.mono fun r _ hr =>
    ⟨_, hr.1, fun name => mem_permissions_iff_of_rowsGiving hknown h⟩)
  decided name := yields_of_ensures ((ensures_isGranted hw' name).mono fun r _ hr => by
    refine ⟨_, hr.1, ?_⟩
    rw [SortedSet.contains_iff]
    exact mem_permissions_iff_of_rowsGiving hknown h)
  rows row := by
    rw [grantsOfUser_replaceUserGrants h]
    exact mem_rowsGiving_iff
  distinct := by
    rw [grantsOfUser_replaceUserGrants h]
    exact (listed_overrides _ _).distinct
  smallest rows s hs hexact row hrow := by
    rw [grantsOfUser_replaceUserGrants h] at hrow
    have hneeded := mem_rowsGiving_iff.mp hrow
    have hhas := hexact row.permission
    rw [Store.mem_permissions_iff, and_iff_right hneeded.1] at hhas
    have hmem := Store.mem_of_needed hneeded (rolesGive_replaceUserGrants hs) hhas
    rwa [grantsOfUser_replaceUserGrants hs] at hmem
  others other hother := by
    have hsame : w'.store.permissions d.catalog other = w.store.permissions d.catalog other := by
      refine Store.permissions_of_agreesFor fun key hkey =>
        (sameData_replaceUserGrants h key ?_).agrees
      rintro rfl
      exact hother hkey.symm
    refine ⟨_, yields_of_ensures (ensures_resolveUser.mono fun _ _ hr => hr.1),
      yields_of_ensures (ensures_resolveUser.mono fun r _ hr => ?_)⟩
    rw [hr.1, hsame]
  roles role :=
    resolveRole_alike (sameData_replaceUserGrants h (.rolePermissions role) (by simp)).agrees

/-- **A user can be given an exact set of permissions.**  In every world that the services lead to,
whatever roles and rows the user has: giving the user a list of names succeeds if and only if the
one who asks may do so, the names are all of the catalog and the user exists.  Then the user
resolves to the set of the list, every decision says the same, the stored rows are the needed ones
and the smallest that achieve this, and no other user and no role resolves to anything else than
before.  A request that fails leaves the store as it was. -/
theorem users_hold_what_was_given (h : Reachable d w) (actor user : UserId)
    (granted : List String) :
    lossy.Yields (setUserGrantedPermissions d actor user granted).run w fun r w' =>
      (r = .ok () ↔ Authorized d actor Permission.changeUserPermissions w ∧
        (∀ name ∈ granted, name ∈ d.catalog.nameList) ∧ w.store.users.contains user = true) ∧
      (r = .ok () → GivenExactly d user granted w w') ∧ FailsClean w.store r w' := by
  refine yields_of_ensures fun t r w' ht hf => ?_
  have hdecided := ensures_setUserGrantedPermissions h.coherent t r w' ht hf
  have hw' : w'.Coherent d.catalog :=
    keeps_of_keepsOrder (fun _ => rfl) (keepsOrder_setUserGrantedPermissions actor granted) w
      h.coherent _ _ _ ht hf
  have hsuccess := (hdecided.of_iff (and_congr_left fun _ =>
    ⟨Authorized.mem, authorized_of_mem h⟩)).ok_unit_iff
  refine ⟨hsuccess, ?_, hdecided.failsClean⟩
  rintro rfl
  obtain ⟨-, hknown, -⟩ := hsuccess.mp rfl
  exact givenExactly_of_replaceUserGrants hw' hknown hdecided.written_of_ok

/-- A deployment whose catalog has the permission to change those of users, and another one. -/
def overseeing : Deployment :=
  ⟨(Catalog.single
      ⟨⟨Permission.changeUserPermissions⟩, ⟨"Change user permissions"⟩, ⟨"Users"⟩⟩).push
    ⟨⟨Permission.editUsers⟩, ⟨"Edit user"⟩, ⟨"Users"⟩⟩ rfl, 60, {}⟩

/-- The only user, whose role gives everything, is given one permission by the user's own request,
and so gets one row. -/
theorem users_hold_what_was_given_to_admins :
    Reachable overseeing oneAdmin ∧
      lossy.Yields (setUserGrantedPermissions overseeing ⟨1⟩ ⟨1⟩ [Permission.editUsers]).run oneAdmin
        (fun r w' => r = .ok () ∧
          GivenExactly overseeing ⟨1⟩ [Permission.editUsers] oneAdmin w' ∧
          .prohibiting Permission.changeUserPermissions ∈ w'.store.grantsOfUser ⟨1⟩) := by
  have hreachable : Reachable overseeing oneAdmin := ⟨oneAdmin, sound_oneAdmin, rfl, .start⟩
  have hactor : Authorized overseeing ⟨1⟩ Permission.changeUserPermissions oneAdmin :=
    authorized_of_mem hreachable (by decide +kernel)
  refine ⟨hreachable, ?_⟩
  refine (users_hold_what_was_given hreachable ⟨1⟩ ⟨1⟩ _).mono fun r w' hr => ?_
  have hok := hr.1.mpr ⟨hactor, by decide +kernel, by decide +kernel⟩
  have hgiven := hr.2.1 hok
  refine ⟨hok, hgiven, (hgiven.rows _).mpr ⟨by decide +kernel, .inr ⟨rfl, by decide +kernel, ?_⟩⟩⟩
  exact ⟨⟨1⟩, by decide +kernel, ⟨⟨1⟩, "Admin", "Admin", true⟩, by decide +kernel,
    by decide +kernel, .inl rfl⟩

end Administration
end AccessControl
