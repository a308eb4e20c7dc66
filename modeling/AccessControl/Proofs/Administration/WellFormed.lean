import AccessControl.Proofs.Administration.History
import AccessControl.Proofs.Administration.Renaming
import AccessControl.Proofs.Session.Coherence
import AccessControl.Proofs.Store.WellFormed

/-! # Administration keeps the store well formed

Each operation makes the rows that it writes in its own way, and always so that they are listed:
for a role from the permissions that the role is to hold, for a user from the catalog or from
changes of which the last ones count.  All names are checked before.  So most operations ask for
nothing but writes that fit any store; only a change of a role that keeps its rows or its kind
depends on what is stored, and this has just been read.
-/
namespace AccessControl

/-! ## Rows that are made -/

theorem SortedSet.nodup (s : NameSet) : s.toList.Nodup := by
  refine s.ascending.imp ?_
  rintro name _ hlt rfl
  exact Std.lt_irrefl hlt

namespace Grant
variable {catalog : Catalog}

/-- Rows that are made for distinct names, at most one for each, have distinct names. -/
theorem nodup_filterMap {f : String → Option Grant}
    (hf : ∀ name row, f name = some row → row.permission = name) {names : List String}
    (h : names.Nodup) : ((names.filterMap f).map (·.permission)).Nodup := by
  induction names with
  | nil => exact List.nodup_nil
  | cons name names ih =>
    obtain ⟨hnew, hrest⟩ := List.nodup_cons.mp h
    cases hrow : f name with
    | none =>
      rw [List.filterMap_cons_none hrow]
      exact ih hrest
    | some row =>
      rw [List.filterMap_cons_some hrow, List.map_cons]
      refine List.nodup_cons.mpr ⟨fun hmem => ?_, ih hrest⟩
      obtain ⟨other, hother, hname⟩ := List.mem_map.mp hmem
      obtain ⟨name', hname', hmade⟩ := List.mem_filterMap.mp hother
      have hsame : name' = name := by rw [← hf name' other hmade, hname, hf name row hrow]
      exact hnew (hsame ▸ hname')

/-- The rows of a list of names are as distinct as the names. -/
theorem map_permission_map {f : String → Grant} (hf : ∀ name, (f name).permission = name)
    (names : List String) : (names.map f).map (·.permission) = names := by
  rw [List.map_map]
  exact (List.map_congr_left fun name _ => hf name).trans (List.map_id names)

theorem permission_of_last? {rows : List Grant} {name : String} {row : Grant}
    (h : last? rows name = some row) : row.permission = name := by
  simpa using List.find?_some h

/-- **Of a list of changes one row is kept for each permission.** -/
theorem listed_normalize {changes : List Grant}
    (h : ∀ name ∈ (normalize changes).map (·.permission), catalog.contains name = true) :
    Listed catalog (normalize changes) where
  known row hrow := h row.permission (List.mem_map_of_mem hrow)
  distinct := nodup_filterMap (fun _ _ => permission_of_last?) (SortedSet.nodup _)

end Grant

namespace Administration
open World Outside Program Authorization
variable {catalog : Catalog} {names : NameSet} {d : Deployment} {actor : UserId} {role : RoleId}

/-- **The rows for a role of a kind are right for that kind.** -/
theorem listedFor_rowsHolding (isPrivileged : Bool)
    (hknown : ∀ name ∈ names, catalog.contains name = true) :
    Grant.ListedFor catalog isPrivileged (rowsHolding catalog isPrivileged names) := by
  cases isPrivileged with
  | true =>
    rw [rowsHolding, if_pos rfl]
    refine ⟨⟨fun row hrow => ?_, ?_⟩, fun row hrow => ?_⟩
    · obtain ⟨name, hname, rfl⟩ := List.mem_map.mp hrow
      exact Catalog.contains_iff.mpr (List.mem_filter.mp hname).1
    · rw [Grant.map_permission_map fun _ => rfl]
      exact catalog.distinct.filter _
    · obtain ⟨name, -, rfl⟩ := List.mem_map.mp hrow
      rfl
  | false =>
    rw [rowsHolding, if_neg Bool.false_ne_true]
    refine ⟨⟨fun row hrow => ?_, ?_⟩, fun row hrow => ?_⟩
    · obtain ⟨name, hname, rfl⟩ := List.mem_map.mp hrow
      exact hknown name hname
    · rw [Grant.map_permission_map fun _ => rfl]
      exact names.nodup
    · obtain ⟨name, -, rfl⟩ := List.mem_map.mp hrow
      rfl

theorem permission_of_overrideFor {wanted derived : NameSet} {name : String} {row : Grant}
    (h : overrideFor wanted derived name = some row) : row.permission = name := by
  unfold overrideFor at h
  split at h
  · cases h
    rfl
  · cases h
    rfl
  · cases h

/-- **Overrides are made for permissions of the catalog**, at most one for each. -/
theorem listed_overrides (wanted derived : NameSet) :
    Grant.Listed catalog (catalog.nameList.filterMap (overrideFor wanted derived)) where
  known row hrow := by
    obtain ⟨name, hname, hmade⟩ := List.mem_filterMap.mp hrow
    rw [permission_of_overrideFor hmade]
    exact Catalog.contains_iff.mpr hname
  distinct := Grant.nodup_filterMap (fun _ _ => permission_of_overrideFor) catalog.distinct

/-- A role that passes the checks of a new one has a name that may be stored. -/
theorem namedFor_of_new {id : RoleId} {name displayName : String} {renamed : Role}
    (h : Role.new id name displayName = .ok renamed) :
    Role.NamedFor renamed.name renamed.isPrivileged := by
  obtain ⟨hname, hkind⟩ := Role.new_ok h
  obtain ⟨given, hgiven, -⟩ := Except.bind_eq_ok_iff.mp h
  have hblank : isBlankText name = false := by
    rw [NonBlank.ofText] at hgiven
    split at hgiven
    · cases hgiven
    · rename_i hno
      simpa using hno
  refine ⟨?_, ?_, ?_⟩
  · rw [hkind, hname, Role.isPrivilegedName, Role.isPrivilegedName, trim_trim]
  · rw [hname, trim_trim]
  · rw [hname]
    exact trim_ne_empty hblank

/-! ## Services that keep the store well formed -/

section
variable {α β : Type} {mayFail : Backend.Request → Bool} {x : Service α}

/-- A request fits every store. -/
def AlwaysFits (catalog : Catalog) (r : Backend.Request) : Prop := ∀ s, r.Fits catalog s

/-- **A service leaves every well formed store well formed**, whatever may fail. -/
abbrev KeepsForm (mayFail : Backend.Request → Bool) (catalog : Catalog) (x : Service α) : Prop :=
  (unreliable mayFail).Preserves (fun w => w.store.WellFormed catalog) x

theorem keepsForm_of_asks (hx : x.run.Asks (AlwaysFits catalog)) : KeepsForm mayFail catalog x :=
  preserves_of_asks hx fun _ _ _ _ hr ha hw => hw.answers (hr _) ha

theorem asks_alwaysFits {p : Program Backend α}
    (hp : p.Asks fun r : Backend.Request => r.writes = false) : p.Asks (AlwaysFits catalog) :=
  hp.mono fun _ hr _ => Backend.Request.fits_of_writes_eq_false hr

/-- What comes after a check may rely on it. -/
theorem asks_run_check_bind {P : Backend.Request → Prop} {check : Except Failure α}
    {f : α → Service β} (hf : ∀ a, check = .ok a → (f a).run.Asks P) :
    (liftM check >>= f : Service β).run.Asks P := by
  cases check with
  | ok a => exact hf a rfl
  | error failure => exact asks_run_throw failure

theorem preserves_check_bind {R : World → Prop} {check : Except Failure α} {f : α → Service β}
    (hf : ∀ a, check = .ok a → (unreliable mayFail).Preserves R (f a)) :
    (unreliable mayFail).Preserves R (liftM check >>= f : Service β) := by
  cases check with
  | ok a => exact hf a rfl
  | error failure => exact preserves_throw failure

theorem asks_alwaysFits_of_resolves {p : Program Backend α} (hp : Resolves d ⟨0⟩ p) :
    p.Asks (AlwaysFits catalog) :=
  asks_alwaysFits hp.asks

theorem asks_requirePermission (name : String) :
    (requirePermission d actor name).run.Asks (AlwaysFits catalog) :=
  asks_alwaysFits_of_resolves (resolves_requirePermission actor name)

theorem asks_removal (key : CacheKey) :
    (liftM (Cached.remove key) : Service Unit).run.Asks (AlwaysFits catalog) := by
  have hremove : (Cached.remove key).Asks (AlwaysFits catalog) := asks_remove fun _ => trivial
  exact hremove.run_lift

/-- A request that fits is answered so that the store stays well formed. -/
theorem ensures_request_wellFormed {r : Backend.Request} {w : World}
    (hw : w.store.WellFormed catalog) (hfits : r.Fits catalog w.store) :
    (unreliable mayFail).Ensures (Program.request (I := Backend) r) w
      fun _ w' => w'.store.WellFormed catalog :=
  ensures_request.mpr fun _ _ ha => hw.answers hfits ha

/-! ## Operations on roles -/

theorem asks_createRole (name displayName : String) (granted : List String) :
    (createRole d actor name displayName granted).run.Asks (AlwaysFits d.catalog) := by
  unfold createRole
  refine Asks.run_bind (asks_requirePermission _) fun _ => ?_
  refine asks_run_check_bind fun _ hname => ?_
  refine asks_run_check_bind fun _ hnames => ?_
  have hnamed : Role.NamedFor (trim name) (Role.isPrivilegedName (trim name)) :=
    ⟨rfl, trim_trim name, by simpa using failIf_eq_ok_iff.mp hname⟩
  have hrows : Grant.ListedFor d.catalog (Role.isPrivilegedName (trim name))
      (rowsHolding d.catalog (Role.isPrivilegedName (trim name)) (.ofList granted)) :=
    listedFor_rowsHolding _ fun _ hmem => Catalog.contains_of_ensureKnown hnames hmem
  refine Asks.run_bind (asks_backend (.createRole _) ?_) fun record => ?_
  · intro s
    refine ⟨hnamed, ?_⟩
    dsimp only
    exact hrows
  · exact Asks.run_bind (asks_removal _) fun _ => asks_run_pure record

/-- What follows a lookup of a role may rely on what is stored. -/
theorem keepsForm_existingRole_bind {f : Role → Service β}
    (hf : ∀ record w, w.store.WellFormed catalog → w.store.findRole role = some record →
      (unreliable mayFail).Ensures (f record).run w fun _ w' => w'.store.WellFormed catalog) :
    KeepsForm mayFail catalog (existingRole role >>= f) := by
  intro w hw
  rw [ensures_run_bind]
  intro t found w' ht hfollows
  obtain ⟨hstore, hread⟩ := follows_reading hfollows (asks_existingRole t found ht)
  cases found with
  | error failure =>
    show w'.store.WellFormed catalog
    rw [hstore]
    exact hw
  | ok record =>
    obtain rfl := transcript_existingRole_ok ht
    have hfound : some record = w.store.findRole role := hread _ List.mem_cons_self
    rw [← hstore] at hw hfound
    exact hf record w' hw hfound.symm

theorem keepsForm_setRolePermissions (granted : List String) :
    KeepsForm mayFail d.catalog (setRolePermissions d actor role granted) := by
  apply Preserves.bind (keepsForm_of_asks (asks_requirePermission _))
  intro _
  refine preserves_check_bind fun _ hknown => ?_
  refine keepsForm_existingRole_bind fun record w hw hfound => ?_
  rw [ensures_run_bind]
  have hfits : Backend.Request.Fits d.catalog w.store (.replaceRoleGrants role
      (rowsHolding d.catalog record.isPrivileged (.ofList granted))) := by
    intro record' hfound'
    obtain rfl := Option.some.inj (hfound.symm.trans hfound')
    exact listedFor_rowsHolding _ fun _ hmem => Catalog.contains_of_ensureKnown hknown hmem
  refine (ensures_request_wellFormed hw hfits).mono fun written w' hw' => ?_
  cases written with
  | error failure => exact hw'
  | ok _ => exact keepsForm_of_asks (asks_removal _) w' hw'

/-- The rows of a renamed role are made for its new kind, or it keeps its kind. -/
theorem rows_of_rowsAfter {current renamed : Role} {grants? : Option (List Grant)}
    {t : List (Exchange Backend)}
    (h : (rowsAfter d role current renamed).run.Transcript t (.ok grants?)) :
    match grants? with
    | some rows => Grant.ListedFor d.catalog renamed.isPrivileged rows
    | none => current.isPrivileged = renamed.isPrivileged := by
  rw [rowsAfter] at h
  split at h
  · obtain ⟨_, held, _, rfl, hresolve, hrows⟩ := transcript_run_bind_ok_iff.mp h
    obtain ⟨record, rows, cached, rfl, -⟩ := transcript_resolveRole_ok hresolve
    obtain rfl := Except.ok.inj (transcript_run_pure_iff.mp hrows).2
    exact listedFor_rowsHolding _ fun _ hmem => Role.contains_of_mem_effective hmem
  · rename_i hkeep
    obtain rfl := Except.ok.inj (transcript_run_pure_iff.mp h).2
    exact Eq.symm (by simpa using hkeep)

theorem ensures_writeRenamed_wellFormed {renamed : Role} {grants? : Option (List Grant)} {w : World}
    (hw : w.store.WellFormed catalog)
    (hfits : Backend.Request.Fits catalog w.store (.updateRole role (changeTo renamed grants?))) :
    (unreliable mayFail).Ensures (writeRenamed role renamed grants?).run w
      fun _ w' => w'.store.WellFormed catalog := by
  rw [writeRenamed, ensures_run_bind, ensures_run_outcome]
  refine (ensures_request_wellFormed hw hfits).mono fun written w' hw' => ?_
  have hrest : KeepsForm mayFail catalog (do
      Cached.remove (.rolePermissions role)
      Backend.conclude written
      return renamed : Service Role) := by
    refine keepsForm_of_asks (Asks.run_bind (asks_removal _) fun _ => ?_)
    exact Asks.run_bind (asks_run_conclude written) fun _ => asks_run_pure renamed
  exact hrest w' hw'

theorem keepsForm_renameRole (name displayName : String) :
    KeepsForm mayFail d.catalog (renameRole d actor role name displayName) := by
  rw [renameRole_eq]
  apply Preserves.bind (keepsForm_of_asks (asks_requirePermission _))
  intro _
  refine keepsForm_existingRole_bind fun current w hw hfound => ?_
  rw [ensures_run_bind, ensures_run_check]
  cases hnew : Role.new role name displayName with
  | error failure => exact hw
  | ok renamed =>
    dsimp only
    rw [ensures_run_bind]
    intro t grants? w' ht hfollows
    obtain ⟨hstore, -⟩ := follows_reading hfollows (asks_rowsAfter current renamed t grants? ht)
    rw [← hstore] at hw hfound
    cases grants? with
    | error failure => exact hw
    | ok grants? =>
      refine ensures_writeRenamed_wellFormed hw ⟨namedFor_of_new hnew, ?_⟩
      have hrows := rows_of_rowsAfter ht
      cases grants? with
      | some rows => exact hrows
      | none =>
        intro record hrecord
        obtain rfl := Option.some.inj (hfound.symm.trans hrecord)
        exact hrows

theorem asks_forgetRolesOf (users : List UserId) :
    (forgetRolesOf users).Asks (AlwaysFits catalog) := by
  induction users with
  | nil => exact asks_done _
  | cons user users ih => exact (asks_remove fun _ => trivial).bind fun _ => ih

theorem asks_deleteRole : (deleteRole d actor role).run.Asks (AlwaysFits d.catalog) := by
  refine Asks.run_bind (asks_requirePermission _) fun _ => ?_
  refine Asks.run_bind (asks_backend (.deleteRole role) fun _ => trivial) fun users => ?_
  exact Asks.run_bind (asks_removal _) fun _ => (asks_forgetRolesOf users).run_lift

theorem asks_listRoleGrants : (listRoleGrants d actor role).run.Asks (AlwaysFits d.catalog) := by
  refine Asks.run_bind (asks_requirePermission _) fun _ => ?_
  refine Asks.run_bind (asks_alwaysFits asks_existingRole) fun _ => ?_
  exact asks_backend (.roleGrants role) fun _ => trivial

/-! ## Operations on users -/

variable {user : UserId}

theorem asks_replaceOverrides {rows : List Grant} (hrows : Grant.Listed catalog rows) :
    (replaceOverrides user rows).run.Asks (AlwaysFits catalog) :=
  Asks.run_bind (asks_backend (.replaceUserGrants user rows) fun _ => hrows)
    fun _ => asks_removal _

theorem asks_setUserPermissions (changes : List Grant) :
    (setUserPermissions d actor user changes).run.Asks (AlwaysFits d.catalog) := by
  refine Asks.run_bind (asks_requirePermission _) fun _ => ?_
  refine asks_run_check_bind fun _ hknown => ?_
  exact asks_replaceOverrides
    (Grant.listed_normalize fun _ hname => Catalog.contains_of_ensureKnown hknown hname)

theorem asks_roleDerived : (roleDerived d user).run.Asks (AlwaysFits catalog) := by
  refine Asks.run_bind (asks_backend (.userRoles user) fun _ => trivial) fun roles => ?_
  exact Asks.run_bind (asks_alwaysFits_of_resolves (resolves_loadRoles roles))
    fun _ => asks_run_pure _

theorem asks_setUserGrantedPermissions (granted : List String) :
    (setUserGrantedPermissions d actor user granted).run.Asks (AlwaysFits d.catalog) := by
  refine Asks.run_bind (asks_requirePermission _) fun _ => ?_
  refine asks_run_check_bind fun _ _ => ?_
  exact Asks.run_bind asks_roleDerived fun derived => asks_replaceOverrides (listed_overrides _ _)

theorem asks_resetUserPermissions :
    (resetUserPermissions d actor user).run.Asks (AlwaysFits d.catalog) :=
  Asks.run_bind (asks_requirePermission _) fun _ => asks_replaceOverrides .nil

theorem asks_setUserRoles (roles : List RoleId) :
    (setUserRoles d actor user roles).run.Asks (AlwaysFits d.catalog) := by
  refine Asks.run_bind (asks_requirePermission _) fun _ => ?_
  exact Asks.run_bind (asks_backend (.replaceUserRoles user _)
    fun _ => (SortedSet.ofList roles).ascending) fun _ => asks_removal _

/-! ## Every call -/

/-- **Every call keeps the store well formed**, whether it succeeds or fails. -/
theorem Call.keepsForm (c : Call) : KeepsForm mayFail d.catalog (c.service d) := by
  cases c with
  | resolveRole role =>
    exact keepsForm_of_asks (asks_alwaysFits_of_resolves (resolves_resolveRole role))
  | resolveUser user =>
    exact keepsForm_of_asks (asks_alwaysFits_of_resolves (resolves_resolveUser user))
  | isGranted user name =>
    exact keepsForm_of_asks (asks_alwaysFits_of_resolves (resolves_isGranted user name))
  | hasPermission user name =>
    exact keepsForm_of_asks (asks_alwaysFits_of_resolves (resolves_hasPermission user name))
  | requirePermission user name => exact keepsForm_of_asks (asks_requirePermission name)
  | listGranted user =>
    exact keepsForm_of_asks (asks_alwaysFits_of_resolves (resolves_listGranted user))
  | createRole actor name displayName granted =>
    exact keepsForm_of_asks (asks_createRole name displayName granted)
  | renameRole actor role name displayName => exact keepsForm_renameRole name displayName
  | setRolePermissions actor role granted => exact keepsForm_setRolePermissions granted
  | deleteRole actor role => exact keepsForm_of_asks asks_deleteRole
  | setUserPermissions actor user changes =>
    exact keepsForm_of_asks (asks_setUserPermissions changes)
  | setUserGrantedPermissions actor user granted =>
    exact keepsForm_of_asks (asks_setUserGrantedPermissions granted)
  | resetUserPermissions actor user => exact keepsForm_of_asks asks_resetUserPermissions
  | setUserRoles actor user roles => exact keepsForm_of_asks (asks_setUserRoles roles)

/-- What leaves decisions alone fits every store, since it writes nothing but stamps and
tokens. -/
theorem alwaysFits_of_leavesDecisions {r : Backend.Request} (h : r.LeavesDecisions) :
    AlwaysFits catalog r := by
  intro s
  have hstamp : ∀ aspect, r.Touches aspect → ∃ user, aspect = .stamp user := h.stamps
  cases r with
  | createRole new => exact nomatch hstamp (.role ⟨0⟩) trivial
  | updateRole role change => exact nomatch hstamp (.role ⟨0⟩) trivial
  | replaceRoleGrants role rows => exact nomatch hstamp (.roleGrants role) rfl
  | replaceUserGrants user rows => exact nomatch hstamp (.overrides user) rfl
  | replaceUserRoles user roles => exact nomatch hstamp (.assignments user) rfl
  | _ => trivial

end
end Administration
end AccessControl
