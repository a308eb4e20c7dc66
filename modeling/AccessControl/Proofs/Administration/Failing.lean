import AccessControl.Proofs.Administration.Overriding
import AccessControl.Proofs.Administration.Requested

/-! # An operation that fails changes nothing

Every operation of administration only reads until all has been checked, then writes once, and what
comes after the write cannot fail.  So if it fails, the write has not been done
(`Operation.ensures_failsClean`), wherever it fails: at the gate, at a check, at a lookup or in the
store.  What it has cached by then was right for the store, and so is everything else that is
cached, since it keeps to the order (`Operation.keepsOrder`).
-/
namespace AccessControl

/-- Names that are not blank make a role. -/
theorem Role.new_of_not_blank (role : RoleId) {name displayName : String}
    (hname : isBlankText name = false) (hlabel : isBlankText displayName = false) :
    ∃ renamed, Role.new role name displayName = .ok renamed := by
  simp only [Role.new, NonBlank.ofText, hname, hlabel]
  exact ⟨_, rfl⟩

namespace Store
variable {s s' : Store} {role other : RoleId} {name : String} {record : Role}

/-- A name that another role has is taken. -/
theorem nameTakenBeside_of_findRole (hs : s.Sound) (hother : other ≠ role)
    (hrecord : s.findRole other = some record) (hname : record.name = name) :
    s.nameTakenBeside role name = true := by
  refine List.any_eq_true.mpr ⟨record, Table.mem_values_of_find? hrecord, ?_⟩
  rw [hs.ownNumber other record hrecord]
  simp [hother, hname]

/-- **A taken name is refused**, whatever else is to be changed. -/
theorem updateRole_of_taken {change : RoleChange} (h : s.nameTakenBeside role change.name = true) :
    s.updateRole role change = .error (Role.nameTaken change.name) := by
  rw [updateRole, failIf_of h]
  rfl

/-- **Roles of which one is not there are given to nobody.** -/
theorem replaceUserRoles_of_missing (user : UserId) {roles : List RoleId}
    (h : ∃ role ∈ roles, s.findRole role = none) :
    ∃ role ∈ roles, s.findRole role = none ∧
      s.replaceUserRoles user roles = .error (Role.missing role) := by
  rw [replaceUserRoles]
  cases hfirst : roles.find? (fun role => !s.roles.contains role) with
  | some role =>
    refine ⟨role, List.mem_of_find?_eq_some hfirst, ?_, rfl⟩
    simpa [Table.contains, findRole] using List.find?_some hfirst
  | none =>
    obtain ⟨role, hrole, hmissing⟩ := h
    have hexists := List.find?_eq_none.mp hfirst role hrole
    rw [findRole] at hmissing
    simp [Table.contains, hmissing] at hexists

end Store

namespace Administration
open World Outside Program Authorization Services
variable {α β : Type} {d : Deployment} {actor user : UserId} {role : RoleId}
  {mayFail : Backend.Request → Bool} {w : World} {s : Store}

/-! ## What fails has not written -/

/-- A service ends in a result, whatever it is answered. -/
def Succeeds (x : Service α) : Prop := ∀ t r, x.run.Transcript t r → ∃ a, r = .ok a

theorem succeeds_lift (p : Program Backend α) : Succeeds (liftM p : Service α) := by
  intro t r ht
  obtain ⟨a, rfl, -⟩ := transcript_run_lift_iff.mp ht
  exact ⟨a, rfl⟩

theorem succeeds_pure (a : α) : Succeeds (pure a : Service α) :=
  fun _ _ ht => ⟨a, (transcript_run_pure_iff.mp ht).2⟩

theorem Succeeds.bind {x : Service α} {f : α → Service β} (hx : Succeeds x)
    (hf : ∀ a, Succeeds (f a)) : Succeeds (x >>= f) := by
  intro t r ht
  rcases transcript_run_bind_iff.mp ht with ⟨_, a, _, -, -, hrest⟩ | ⟨failure, -, hfailed⟩
  · exact hf a _ _ hrest
  · obtain ⟨a, ha⟩ := hx _ _ hfailed
    cases ha

/-- **What cannot fail may come after anything that fails clean.** -/
theorem failsClean_then {x : Service α} {f : α → Service β}
    (hx : (unreliable mayFail).Ensures x.run w (FailsClean s)) (hf : ∀ a, Succeeds (f a)) :
    (unreliable mayFail).Ensures (x >>= f).run w (FailsClean s) := by
  rw [ensures_run_bind]
  refine hx.mono fun r v hv => ?_
  cases r with
  | ok a =>
    intro t r v' ht _ failure hfailed
    obtain ⟨b, hok⟩ := hf a t r ht
    exact nomatch hok.symm.trans hfailed
  | error failure => exact fun _ _ => hv failure rfl

/-- A write that a store refuses has not been done. -/
theorem failsClean_writeGiving {f : Store → Except Failure (α × Store)} (hw : w.store = s) :
    FailsClean s (writeGiving f w).1 (writeGiving f w).2 :=
  fun _ h => (congrArg World.store (eq_of_writeGiving_error h)).trans hw

/-- A request to a store is answered by the store, or it fails and is not done. -/
theorem ensures_served_or_kept {r : Backend.Request} (hcache : r.isCaching = false)
    (hw : w.store = s) {Q : Backend.Answer r → World → Prop}
    (hserved : ∀ v, v.store = s → Q (World.answer r v).1 (World.answer r v).2)
    (hkept : ∀ a v, v.store = s → Q a v) :
    (unreliable mayFail).Ensures (Program.request (I := Backend) r) w Q :=
  ensures_served hcache (fun v hv => hserved v (hv.store.trans hw))
    fun v _ a hv _ _ => hkept a v (hv.store.trans hw)

theorem asks_requirePermission_quiet (name : String) :
    (requirePermission d actor name).run.Asks fun r : Backend.Request => r.writes = false :=
  fun _ _ ht => writes_eq_false_of_requirePermission ht

theorem ensures_createRole_failsClean {name displayName : String} {granted : List String} :
    (unreliable mayFail).Ensures (createRole d actor name displayName granted).run w
      (FailsClean w.store) := by
  refine failsClean_bind (asks_requirePermission_quiet _) rfl fun _ v hv => ?_
  refine failsClean_bind (asks_run_check _) hv fun _ v hv => ?_
  refine failsClean_bind (asks_run_check _) hv fun _ v hv => ?_
  refine failsClean_then (ensures_served_or_kept (r := .createRole _) rfl hv
    (fun _ hu => failsClean_writeGiving hu) fun _ _ hu _ _ => hu) fun record => ?_
  exact (succeeds_lift _).bind fun _ => succeeds_pure _

theorem ensures_setRolePermissions_failsClean {granted : List String} :
    (unreliable mayFail).Ensures (setRolePermissions d actor role granted).run w
      (FailsClean w.store) := by
  refine failsClean_bind (asks_requirePermission_quiet _) rfl fun _ v hv => ?_
  refine failsClean_bind (asks_run_check _) hv fun _ v hv => ?_
  refine failsClean_bind asks_existingRole hv fun record v hv => ?_
  exact failsClean_then (ensures_served_or_kept (r := .replaceRoleGrants role _) rfl hv
    (fun _ hu => failsClean_writeGiving hu) fun _ _ hu _ _ => hu) fun _ => succeeds_lift _

theorem ensures_deleteRole_failsClean :
    (unreliable mayFail).Ensures (deleteRole d actor role).run w (FailsClean w.store) := by
  refine failsClean_bind (asks_requirePermission_quiet _) rfl fun _ v hv => ?_
  refine failsClean_then (ensures_served_or_kept (r := .deleteRole role) rfl hv
    (fun _ hu => failsClean_writeGiving hu) fun _ _ hu _ _ => hu) fun users => ?_
  exact (succeeds_lift _).bind fun _ => succeeds_lift _

theorem asks_listRoleGrants_quiet :
    (listRoleGrants d actor role).run.Asks fun r : Backend.Request => r.writes = false :=
  (asks_requirePermission_quiet _).run_bind fun _ =>
    asks_existingRole.run_bind fun _ => asks_backend (.roleGrants role) rfl

theorem ensures_replaceOverrides_failsClean {rows : List Grant} (hw : w.store = s) :
    (unreliable mayFail).Ensures (replaceOverrides user rows).run w (FailsClean s) :=
  failsClean_then (ensures_served_or_kept (r := .replaceUserGrants user rows) rfl hw
    (fun _ hu => failsClean_writeGiving hu) fun _ _ hu _ _ => hu) fun _ => succeeds_lift _

theorem ensures_setUserPermissions_failsClean {changes : List Grant} :
    (unreliable mayFail).Ensures (setUserPermissions d actor user changes).run w
      (FailsClean w.store) := by
  refine failsClean_bind (asks_requirePermission_quiet _) rfl fun _ v hv => ?_
  exact failsClean_bind (asks_run_check _) hv fun _ v hv => ensures_replaceOverrides_failsClean hv

theorem ensures_setUserGrantedPermissions_failsClean {granted : List String} :
    (unreliable mayFail).Ensures (setUserGrantedPermissions d actor user granted).run w
      (FailsClean w.store) := by
  refine failsClean_bind (asks_requirePermission_quiet _) rfl fun _ v hv => ?_
  refine failsClean_bind (asks_run_check _) hv fun _ v hv => ?_
  exact failsClean_bind asks_roleDerived_quiet hv fun _ v hv =>
    ensures_replaceOverrides_failsClean hv

theorem ensures_resetUserPermissions_failsClean :
    (unreliable mayFail).Ensures (resetUserPermissions d actor user).run w (FailsClean w.store) :=
  failsClean_bind (asks_requirePermission_quiet _) rfl fun _ _ hv =>
    ensures_replaceOverrides_failsClean hv

theorem ensures_setUserRoles_failsClean {roles : List RoleId} :
    (unreliable mayFail).Ensures (setUserRoles d actor user roles).run w (FailsClean w.store) := by
  refine failsClean_bind (asks_requirePermission_quiet _) rfl fun _ v hv => ?_
  exact failsClean_then (ensures_served_or_kept (r := .replaceUserRoles user _) rfl hv
    (fun _ hu => failsClean_writeGiving hu) fun _ _ hu _ _ => hu) fun _ => succeeds_lift _

namespace Operation

/-- **An operation that fails leaves everything stored as it was**, whichever requests fail. -/
theorem ensures_failsClean (op : Operation) :
    (unreliable mayFail).Ensures (op.service d actor).run w (FailsClean w.store) := by
  cases op with
  | createRole name displayName granted => exact ensures_createRole_failsClean
  | renameRole role name displayName => exact ensures_renameRole_failsClean
  | setRolePermissions role granted => exact ensures_setRolePermissions_failsClean
  | deleteRole role => exact ensures_deleteRole_failsClean
  | listRoleGrants role =>
    exact (ensures_store_of_asks asks_listRoleGrants_quiet rfl).mono fun _ _ hv _ _ => hv
  | setUserPermissions user changes => exact ensures_setUserPermissions_failsClean
  | setUserGrantedPermissions user granted => exact ensures_setUserGrantedPermissions_failsClean
  | resetUserPermissions user => exact ensures_resetUserPermissions_failsClean
  | setUserRoles user roles => exact ensures_setUserRoles_failsClean

/-- **Every operation keeps to the order.** -/
theorem keepsOrder (op : Operation) : KeepsOrder d.catalog (op.service d actor) := by
  cases op with
  | createRole name displayName granted =>
    exact keepsOrder_createRole actor name displayName granted
  | renameRole role name displayName => exact keepsOrder_renameRole actor name displayName
  | setRolePermissions role granted => exact keepsOrder_setRolePermissions actor granted
  | deleteRole role => exact keepsOrder_deleteRole actor
  | listRoleGrants role => exact keepsOrder_listRoleGrants actor role
  | setUserPermissions user changes => exact keepsOrder_setUserPermissions actor changes
  | setUserGrantedPermissions user granted =>
    exact keepsOrder_setUserGrantedPermissions actor granted
  | resetUserPermissions user => exact keepsOrder_resetUserPermissions actor
  | setUserRoles user roles => exact keepsOrder_setUserRoles actor roles

end Operation

/-! ## What must fail -/

/-- What a store refuses is answered with the failure. -/
theorem write_of_error {f : Store → Except Failure Store} {failure : Failure}
    (h : f w.store = .error failure) : (World.write f w).1 = .error failure := by
  rw [World.write, writeGiving, h]
  rfl

/-- **A service fails, and if some conditions are met, in one way only.** -/
def FailsBy (conditions : Prop) (expected : Failure → Prop) (r : Except Failure α) : Prop :=
  ∃ failure, r = .error failure ∧ (conditions → expected failure)

/-- **Roles of which one is not there are given to nobody**, and whoever may give them is told
which one it is. -/
theorem ensures_setUserRoles_missing {roles : List RoleId} (hw : w.Coherent d.catalog)
    (hmissing : ∃ role ∈ roles, w.store.findRole role = none) :
    lossy.Ensures (setUserRoles d actor user roles).run w fun r _ =>
      FailsBy (Permission.editUsers ∈ w.store.permissions d.catalog actor)
        (fun failure => ∃ role ∈ roles, w.store.findRole role = none ∧ failure = Role.missing role)
        r := by
  obtain ⟨role, hrole, hnone⟩ := hmissing
  have hlisted : ∃ role ∈ (SortedSet.ofList roles).toList, w.store.findRole role = none :=
    ⟨role, SortedSet.mem_ofList.mpr hrole, hnone⟩
  obtain ⟨absent, habsent, hgone, hrefused⟩ := Store.replaceUserRoles_of_missing user hlisted
  rw [setUserRoles, ensures_run_bind]
  refine (ensures_requirePermission_iff hw).mono fun r v hr => ?_
  obtain ⟨hpassed, hrefills⟩ := hr
  cases r with
  | error failure => exact ⟨failure, rfl, fun hactor => nomatch hpassed.mpr hactor⟩
  | ok _ =>
    dsimp only
    rw [ensures_run_bind]
    refine ensures_stored (r := .replaceUserRoles user _) rfl fun m hm => ?_
    have hstore : m.store = w.store := hm.store.trans hrefills.store
    have hanswer : (World.answer (.replaceUserRoles user (SortedSet.ofList roles).toList) m).1 =
        .error (Role.missing absent) := write_of_error (hstore.symm ▸ hrefused)
    rw [hanswer]
    exact ⟨_, rfl, fun _ => ⟨absent, SortedSet.mem_ofList.mp habsent, hgone, rfl⟩⟩

/-- The rows that a role keeps what it holds with are found if the role is there. -/
theorem ensures_rowsAfter {record current renamed : Role}
    (hrecord : w.store.findRole role = some record) :
    lossy.Ensures (rowsAfter d role current renamed).run w fun r v =>
      (∃ grants?, r = .ok grants?) ∧ v.store = w.store := by
  have hfound : lossy.Ensures (rowsAfter d role current renamed).run w fun r _ =>
      ∃ grants?, r = .ok grants? := by
    unfold rowsAfter
    split
    · rw [ensures_run_bind]
      refine ensures_resolveRole_eq.mono fun r v hr => ?_
      rw [Store.roleSet, hrecord, Option.map_some] at hr
      subst hr
      exact ensures_run_pure.mpr ⟨_, rfl⟩
    · exact ensures_run_pure.mpr ⟨_, rfl⟩
  exact fun t r v ht hf => ⟨hfound t r v ht hf,
    ensures_store_of_asks (asks_rowsAfter current renamed) rfl t r v ht hf⟩

/-- A role cannot be written under a name that another one has. -/
theorem ensures_writeRenamed_taken {renamed : Role} {grants? : Option (List Grant)}
    (htaken : w.store.nameTakenBeside role renamed.name = true) :
    lossy.Ensures (writeRenamed role renamed grants?).run w fun r _ =>
      r = .error (Role.nameTaken renamed.name) := by
  rw [writeRenamed, ensures_run_bind, ensures_run_outcome]
  refine ensures_stored (r := .updateRole role _) rfl fun v hv => ?_
  have hrefused : (World.answer (.updateRole role
      ⟨renamed.name, renamed.displayName, renamed.isPrivileged, grants?⟩) v).1 =
        .error (Role.nameTaken renamed.name) :=
    write_of_error (hv.store.symm ▸ Store.updateRole_of_taken htaken)
  dsimp only
  rw [ensures_run_bind, ensures_run_lift]
  refine ensures_remove rfl fun _ _ _ => ?_
  dsimp only
  rw [ensures_run_bind, ensures_run_conclude]
  rw [hrefused]

/-- **A renaming onto a name that another role has fails**, and whoever may rename the role is told
that the name is taken. -/
theorem ensures_renameRole_taken {name displayName : String} (hw : w.Coherent d.catalog)
    (htaken : w.store.nameTakenBeside role (trim name) = true) :
    lossy.Ensures (renameRole d actor role name displayName).run w fun r _ =>
      FailsBy (Permission.editRoles ∈ w.store.permissions d.catalog actor ∧
          (∃ record, w.store.findRole role = some record) ∧
          isBlankText name = false ∧ isBlankText displayName = false)
        (fun failure => failure = Role.nameTaken (trim name)) r := by
  rw [renameRole_eq, ensures_run_bind]
  refine (ensures_requirePermission_iff hw).mono fun r v hr => ?_
  obtain ⟨hpassed, hrefills⟩ := hr
  cases r with
  | error failure => exact ⟨failure, rfl, fun h => nomatch hpassed.mpr h.1⟩
  | ok _ =>
    dsimp only
    rw [ensures_run_bind]
    refine ensures_existingRole.mono fun r m hr => ?_
    obtain ⟨hm, rfl⟩ := hr
    rw [hrefills.store] at hm ⊢
    cases hrecord : w.store.findRole role with
    | none => exact ⟨_, rfl, fun ⟨_, ⟨_, hexists⟩, _⟩ => nomatch hexists⟩
    | some current =>
      dsimp only
      rw [ensures_run_bind, ensures_run_check]
      cases hnew : Role.new role name displayName with
      | error failure =>
        refine ⟨failure, rfl, fun ⟨_, _, hname, hlabel⟩ => ?_⟩
        obtain ⟨renamed, hmade⟩ := Role.new_of_not_blank role hname hlabel
        exact nomatch hnew.symm.trans hmade
      | ok renamed =>
        dsimp only
        rw [← hm] at hrecord htaken
        rw [ensures_run_bind]
        refine (ensures_rowsAfter hrecord).mono fun r n hr => ?_
        obtain ⟨⟨grants?, rfl⟩, hn⟩ := hr
        rw [← hn, ← (Role.new_ok hnew).1] at htaken
        refine (ensures_writeRenamed_taken htaken).mono fun r _ hr => ⟨_, hr, fun _ => ?_⟩
        rw [(Role.new_ok hnew).1]

/-- **An operation that fails changes nothing.**  In every world that the services lead to, whoever
asks for whatever operation of administration with whatever arguments, and whatever may fail beside
the removals from the cache: if the operation fails, the store is as it was; and whether it fails or
not, every item that is cached afterwards is the one computed again from the store.

In particular, if one of the roles that a user is to have is not there, wherever in the list it
stands, the user gets none of them, and whoever may give them is told of one that is missing; and a
renaming onto a name that another role has changes neither the kind nor the rows of the role, even
if the kind would change, and whoever may rename the role is told that the name is taken. -/
theorem failed_operations_change_nothing (h : Reachable d w) (actor : UserId) :
    (∀ mayFail, RemovalsHold mayFail → ∀ op : Operation,
      (unreliable mayFail).Yields (op.service d actor).run w fun r w' =>
        (∀ failure, r = .error failure → w'.store = w.store) ∧ w'.Coherent d.catalog) ∧
    (∀ user roles, (∃ role ∈ roles, w.store.findRole role = none) →
      lossy.Yields (setUserRoles d actor user roles).run w fun r w' => w'.store = w.store ∧
        FailsBy (Authorized d actor Permission.editUsers w)
          (fun failure => ∃ role ∈ roles, w.store.findRole role = none ∧
            failure = Role.missing role) r) ∧
    (∀ role name displayName, (∃ other record, other ≠ role ∧
        w.store.findRole other = some record ∧ record.name = trim name) →
      lossy.Yields (renameRole d actor role name displayName).run w fun r w' =>
        w'.store = w.store ∧
        FailsBy (Authorized d actor Permission.editRoles w ∧
            (∃ record, w.store.findRole role = some record) ∧
            isBlankText name = false ∧ isBlankText displayName = false)
          (fun failure => failure = Role.nameTaken (trim name)) r) := by
  have hw := h.coherent
  refine ⟨fun mayFail hremove op => yields_of_ensures fun t r w' ht hf => ?_,
    fun user roles hmissing => yields_of_ensures fun t r w' ht hf => ?_,
    fun role name displayName htaken => yields_of_ensures fun t r w' ht hf => ?_⟩
  · exact ⟨op.ensures_failsClean t r w' ht hf,
      keeps_of_keepsOrder hremove op.keepsOrder w hw t r w' ht hf⟩
  · obtain ⟨failure, rfl, hwhy⟩ := ensures_setUserRoles_missing hw hmissing t r w' ht hf
    exact ⟨ensures_setUserRoles_failsClean t _ w' ht hf failure rfl, failure, rfl,
      fun hactor => hwhy hactor.mem⟩
  · obtain ⟨other, record, hother, hrecord, hname⟩ := htaken
    have htaken := Store.nameTakenBeside_of_findRole h.sound hother hrecord hname
    obtain ⟨failure, rfl, hwhy⟩ := ensures_renameRole_taken hw htaken t r w' ht hf
    exact ⟨ensures_renameRole_failsClean t _ w' ht hf failure rfl, failure, rfl,
      fun hmay => hwhy ⟨hmay.1.mem, hmay.2⟩⟩

/-- A world that is set up with a user who has the privileged role, and with a role that nobody
has. -/
def staffed : World :=
  after [.createRole ⟨"Admin", "Admin", true, []⟩, .createRole ⟨"Staff", "Staff", false, []⟩,
    .createUser "alice", .replaceUserRoles ⟨1⟩ [⟨1⟩]] (World.ofStore Store.empty)

/-- The only user asks for a role that is not there beside one that is, and for a role to become
privileged under the name of the other. -/
theorem failed_operations_change_nothing_when_staffed :
    Reachable editing staffed ∧
      lossy.Yields (setUserRoles editing ⟨1⟩ ⟨1⟩ [⟨2⟩, ⟨7⟩]).run staffed (fun r w' =>
        w'.store = staffed.store ∧ r = .error (Role.missing ⟨7⟩)) ∧
      lossy.Yields (renameRole editing ⟨1⟩ ⟨2⟩ " Admin " "Admin").run staffed (fun r w' =>
        w'.store = staffed.store ∧ r = .error (Role.nameTaken "Admin")) := by
  have hreachable : Reachable editing staffed :=
    ⟨staffed, (proceeds_after _).sound .empty, rfl, .start⟩
  have hassigns : Authorized editing ⟨1⟩ Permission.editUsers staffed :=
    authorized_of_mem hreachable (by decide +kernel)
  have hedits : Authorized editing ⟨1⟩ Permission.editRoles staffed :=
    authorized_of_mem hreachable (by decide +kernel)
  obtain ⟨-, hassign, hrename⟩ := failed_operations_change_nothing hreachable ⟨1⟩
  refine ⟨hreachable, ?_, ?_⟩
  · refine (hassign ⟨1⟩ [⟨2⟩, ⟨7⟩] ⟨⟨7⟩, by decide, by decide +kernel⟩).mono fun r w' hr => ?_
    obtain ⟨hstore, failure, rfl, hwhy⟩ := hr
    obtain ⟨role, hrole, hmissing, rfl⟩ := hwhy hassigns
    have hthere : staffed.store.findRole ⟨2⟩ ≠ none := by decide +kernel
    simp only [List.mem_cons, List.not_mem_nil, or_false] at hrole
    rcases hrole with rfl | rfl
    · exact absurd hmissing hthere
    · exact ⟨hstore, rfl⟩
  · refine (hrename ⟨2⟩ " Admin " "Admin" ⟨⟨1⟩, ⟨⟨1⟩, "Admin", "Admin", true⟩, by decide,
      by decide +kernel, by decide +kernel⟩).mono fun r w' hr => ?_
    obtain ⟨hstore, failure, rfl, hwhy⟩ := hr
    have htaken := hwhy ⟨hedits, ⟨⟨⟨2⟩, "Staff", "Staff", false⟩, by decide +kernel⟩,
      by decide +kernel, by decide +kernel⟩
    have hname : trim " Admin " = "Admin" := by decide +kernel
    rw [htaken, hname]
    exact ⟨hstore, rfl⟩

end Administration
end AccessControl
