import AccessControl.Proofs.Administration.Overriding

/-! # The last change decides

A list of changes of what is given to and prohibited for a user may change a permission several
times.  One row is written for each permission, its last change (`Grant.mem_normalize_iff`), and
these rows replace whatever rows the user had.  So a permission that is in the list is decided by
its last change, whatever the roles of the user hold, and every other one by the roles alone
(`TakenEffect`).
-/
namespace AccessControl

namespace Grant
variable {changes changes' : List Grant} {change change' : Grant} {name : String}

/-- **A change is the last one of its permission** in a list. -/
def IsLast (change : Grant) (changes : List Grant) : Prop :=
  ∃ before after, changes = before ++ change :: after ∧
    ∀ later ∈ after, later.permission ≠ change.permission

theorem IsLast.mem (h : change.IsLast changes) : change ∈ changes := by
  obtain ⟨before, after, rfl, -⟩ := h
  simp

theorem last?_eq_some_iff :
    last? changes name = some change ↔ change.permission = name ∧ change.IsLast changes := by
  rw [last?, List.find?_eq_some_iff_append, beq_iff_eq]
  refine and_congr_right fun hname => ?_
  subst hname
  -- What comes before in the reversed list comes after in the list.
  constructor
  · rintro ⟨after, before, hreverse, hlater⟩
    refine ⟨before.reverse, after.reverse, ?_, fun later hmem => ?_⟩
    · rw [← List.reverse_reverse changes, hreverse]
      simp
    · simpa using hlater later (List.mem_reverse.mp hmem)
  · rintro ⟨before, after, rfl, hlater⟩
    refine ⟨after.reverse, before.reverse, by simp, fun later hmem => ?_⟩
    simpa using hlater later (List.mem_reverse.mp hmem)

/-- No permission has two last changes. -/
theorem IsLast.eq (h : change.IsLast changes) (h' : change'.IsLast changes)
    (hname : change'.permission = change.permission) : change' = change := by
  have hfirst := last?_eq_some_iff.mpr ⟨rfl, h⟩
  have hsecond := last?_eq_some_iff.mpr ⟨hname, h'⟩
  exact Option.some.inj (hsecond.symm.trans hfirst)

theorem mem_names_iff : name ∈ names changes ↔ ∃ change ∈ changes, change.permission = name := by
  rw [names, SortedSet.mem_ofList, List.mem_map]

/-- A permission that is changed has a last change. -/
theorem exists_last? (h : name ∈ names changes) : ∃ change, last? changes name = some change := by
  obtain ⟨change, hchange, hname⟩ := mem_names_iff.mp h
  refine Option.isSome_iff_exists.mp (List.find?_isSome.mpr ⟨change, ?_, beq_iff_eq.mpr hname⟩)
  exact List.mem_reverse.mpr hchange

/-- **The rows that are kept of a list of changes are the last ones.** -/
theorem mem_normalize_iff : change ∈ normalize changes ↔ change.IsLast changes := by
  rw [normalize, List.mem_filterMap]
  constructor
  · rintro ⟨name, -, hlast⟩
    exact (last?_eq_some_iff.mp hlast).2
  · intro h
    have hname : change.permission ∈ names changes := mem_names_iff.mpr ⟨change, h.mem, rfl⟩
    exact ⟨_, hname, last?_eq_some_iff.mpr ⟨rfl, h⟩⟩

/-- One row is kept for each permission, in the order of the names. -/
theorem map_permission_normalize :
    (normalize changes).map (·.permission) = (names changes).toList := by
  have hkept : ∀ name ∈ (names changes).toList,
      (last? changes name).map (·.permission) = some name := by
    intro name hname
    obtain ⟨change, hlast⟩ := exists_last? hname
    rw [hlast, Option.map_some, permission_of_last? hlast]
  rw [normalize, List.map_filterMap, List.filterMap_congr hkept, List.filterMap_some]

/-- **Lists with the same last changes come to the same rows.** -/
theorem normalize_congr (h : ∀ change : Grant, change.IsLast changes' ↔ change.IsLast changes) :
    normalize changes' = normalize changes := by
  have hlast : last? changes' = last? changes := by
    funext name
    apply Option.ext
    intro change
    rw [last?_eq_some_iff, last?_eq_some_iff, h]
  have hnames : names changes' = names changes := by
    apply SortedSet.ext
    intro name
    rw [SortedSet.mem_def, SortedSet.mem_def, ← map_permission_normalize,
      ← map_permission_normalize, List.mem_map, List.mem_map]
    simp only [mem_normalize_iff, h]
  rw [normalize, hlast, hnames, normalize]

end Grant

/-- Names of which one is not of the catalog are refused. -/
theorem Catalog.ensureKnown_of_unknown {catalog : Catalog} {names : List String} {name : String}
    (hname : name ∈ names) (hunknown : name ∉ catalog.nameList) :
    ∃ detail, catalog.ensureKnown names = .error (.validation detail) := by
  have hrefused : ∀ u, catalog.ensureKnown names ≠ .ok u := fun u h =>
    hunknown (Catalog.contains_iff.mp (Catalog.contains_of_ensureKnown h hname))
  rw [Catalog.ensureKnown] at hrefused ⊢
  split at hrefused
  · exact absurd rfl (hrefused ())
  · rename_i hsome
    exact ⟨_, if_neg hsome⟩

namespace Store
variable {s : Store} {user : UserId} {changes : List Grant} {name : String}

/-- **With the last changes as rows a permission is decided by its last change.** -/
theorem userHas_iff_of_isLast (hrows : ∀ row, row ∈ s.grantsOfUser user ↔ row.IsLast changes)
    {flag : Bool} (hlast : Grant.IsLast ⟨name, flag⟩ changes) :
    s.UserHas user name ↔ flag = true := by
  rw [UserHas, hrows, hrows]
  cases flag with
  | false => exact iff_of_false (fun h => h.1 hlast) (by simp)
  | true =>
    refine iff_of_true ⟨fun hprohibited => ?_, .inl hlast⟩ rfl
    cases hlast.eq hprohibited rfl

/-- **A permission that no change names is decided by the roles.** -/
theorem userHas_iff_rolesGive (hrows : ∀ row, row ∈ s.grantsOfUser user ↔ row.IsLast changes)
    (hname : ∀ change ∈ changes, change.permission ≠ name) :
    s.UserHas user name ↔ s.RolesGive user name := by
  have hnone : ∀ flag, ⟨name, flag⟩ ∉ s.grantsOfUser user := fun flag h =>
    hname _ ((hrows _).mp h).mem rfl
  rw [UserHas, and_iff_right (hnone false), or_iff_right (hnone true)]
  rfl

end Store

namespace Administration
open World Outside Program Authorization Services
variable {d : Deployment} {actor user : UserId} {changes : List Grant} {name : String}
  {w w' : World} {s' : Store}

/-! ## What is written -/

/-- **Changing a user's permissions is decided by the names and by whether the user exists**, and
writes the last changes. -/
theorem ensures_setUserPermissions (hw : w.Coherent d.catalog) :
    lossy.Ensures (setUserPermissions d actor user changes).run w
      (Decided (Permission.changeUserPermissions ∈ w.store.permissions d.catalog actor ∧
          (∀ change ∈ changes, change.permission ∈ d.catalog.nameList) ∧
          w.store.users.contains user = true)
        (fun _ s' => w.store.replaceUserGrants user (Grant.normalize changes) = .ok s')
        w.store) := by
  have hknown : d.catalog.ensureKnown ((Grant.normalize changes).map (·.permission)) = .ok () ↔
      ∀ change ∈ changes, change.permission ∈ d.catalog.nameList := by
    rw [Grant.map_permission_normalize, Grant.names, Catalog.ensureKnown_ofList_iff,
      List.forall_mem_map]
  refine ensures_gated hw fun v hv => ?_
  exact ensures_checked hv hknown fun _ => ensures_replaceOverrides hv

/-- **Whoever may change permissions and names one that is not of the catalog is told so.** -/
theorem ensures_setUserPermissions_unknown (hw : w.Coherent d.catalog)
    (hactor : Permission.changeUserPermissions ∈ w.store.permissions d.catalog actor)
    (hunknown : ∃ change ∈ changes, change.permission ∉ d.catalog.nameList) :
    lossy.Ensures (setUserPermissions d actor user changes).run w fun r _ =>
      ∃ detail, r = .error (.validation detail) := by
  obtain ⟨change, hchange, hnot⟩ := hunknown
  have hnamed : change.permission ∈ (Grant.normalize changes).map (·.permission) := by
    rw [Grant.map_permission_normalize]
    exact Grant.mem_names_iff.mpr ⟨change, hchange, rfl⟩
  obtain ⟨detail, hrefused⟩ := Catalog.ensureKnown_of_unknown hnamed hnot
  rw [setUserPermissions, ensures_run_bind]
  refine (ensures_requirePermission_holds hw hactor).mono fun r v hr => ?_
  obtain ⟨rfl, -⟩ := hr
  dsimp only
  rw [ensures_run_bind, ensures_run_check, hrefused]
  exact ⟨detail, rfl⟩

/-! ## What the user has then -/

/-- **One of the roles of a user holds a permission**, as the role resolves. -/
def HeldByRole (d : Deployment) (w : World) (user : UserId) (name : String) : Prop :=
  ∃ role ∈ w.store.rolesOfUser user,
    lossy.Yields (resolveRole d role).run w fun r _ => ∃ held, r = .ok held ∧ name ∈ held

theorem heldByRole_iff (hname : name ∈ d.catalog.nameList) :
    HeldByRole d w user name ↔ w.store.RolesGive user name := by
  have hknown := Catalog.contains_iff.mpr hname
  constructor
  · rintro ⟨role, hrole, hensures, t, r, v, ht, hf⟩
    obtain ⟨held, rfl, hmem⟩ := hensures t r v ht hf
    have hresolved := ensures_resolveRole_eq t _ v ht hf
    cases hset : w.store.roleSet d.catalog role with
    | none =>
      rw [hset] at hresolved
      cases hresolved
    | some set =>
      rw [hset] at hresolved
      cases hresolved
      exact ⟨role, hrole, ((Store.mem_roleSet_iff hset).mp hmem).2⟩
  · rintro ⟨role, hrole, hgives⟩
    obtain ⟨record, hrecord, -⟩ := id hgives
    have hset : w.store.roleSet d.catalog role =
        some (record.effective (w.store.grantsOfRole role) d.catalog) := by
      rw [Store.roleSet, hrecord, Option.map_some]
    refine ⟨role, hrole, yields_of_ensures (ensures_resolveRole_eq.mono fun r _ hr => ?_)⟩
    rw [hset] at hr
    exact ⟨_, hr, (Store.mem_roleSet_iff hset).mpr ⟨hknown, hgives⟩⟩

/-- **Two worlds, of which in the second a list of changes has taken effect for a user.** -/
structure TakenEffect (d : Deployment) (user : UserId) (changes : List Grant) (w w' : World) :
    Prop where
  /-- A permission that is changed is decided by its last change. -/
  changed : ∀ name flag, Grant.IsLast ⟨name, flag⟩ changes →
    lossy.Yields (isGranted d user name).run w' fun r _ => r = .ok flag
  /-- Every other permission of the catalog is decided by the roles. -/
  unchanged : ∀ name ∈ d.catalog.nameList, (∀ change ∈ changes, change.permission ≠ name) →
    ∃ has : Bool, lossy.Yields (isGranted d user name).run w' (fun r _ => r = .ok has) ∧
      (has = true ↔ HeldByRole d w' user name)
  /-- The rows of the user are the last changes. -/
  rows : ∀ row, row ∈ w'.store.grantsOfUser user ↔ row.IsLast changes
  /-- They are listed by name, each name once. -/
  ascending : ((w'.store.grantsOfUser user).map (·.permission)).Pairwise (· < ·)
  /-- What is stored of all other users, of the assignments and of the roles is as before. -/
  others : ∀ key, key ≠ .userPermissions user → w.store.SameData w'.store key

theorem takenEffect_of_replaceUserGrants (hw' : w'.Coherent d.catalog)
    (hknown : ∀ change ∈ changes, change.permission ∈ d.catalog.nameList)
    (h : w.store.replaceUserGrants user (Grant.normalize changes) = .ok w'.store) :
    TakenEffect d user changes w w' := by
  have hrows : ∀ row, row ∈ w'.store.grantsOfUser user ↔ row.IsLast changes := by
    intro row
    rw [grantsOfUser_replaceUserGrants h, Grant.mem_normalize_iff]
  have hdecided : ∀ name has, (w'.store.UserHas user name ↔ has = true) →
      name ∈ d.catalog.nameList →
      lossy.Yields (isGranted d user name).run w' fun r _ => r = .ok has := by
    intro name has hiff hname
    refine yields_of_ensures ((ensures_isGranted hw' name).mono fun r _ hr => ?_)
    rw [hr.1, Except.ok.injEq, Bool.eq_iff_iff, SortedSet.contains_iff,
      Store.mem_permissions_iff, and_iff_right hname, hiff]
  refine ⟨?_, ?_, hrows, ?_, fun key hkey => sameData_replaceUserGrants h key hkey⟩
  · intro name flag hlast
    exact hdecided name flag (Store.userHas_iff_of_isLast hrows hlast) (hknown _ hlast.mem)
  · intro name hname hnot
    refine ⟨(w'.store.permissions d.catalog user).contains name, ?_, ?_⟩
    · exact yields_of_ensures ((ensures_isGranted hw' name).mono fun r _ hr => hr.1)
    · rw [SortedSet.contains_iff, Store.mem_permissions_iff, and_iff_right hname,
        Store.userHas_iff_rolesGive hrows hnot, heldByRole_iff hname]
  · rw [grantsOfUser_replaceUserGrants h, Grant.map_permission_normalize]
    exact (Grant.names changes).ascending

/-! ## Requests that are the same -/

/-- Removing everything is changing nothing. -/
theorem resetUserPermissions_eq :
    resetUserPermissions d actor user = setUserPermissions d actor user [] := rfl

/-- **Lists with the same last changes are the same request.** -/
theorem setUserPermissions_congr {changes' : List Grant}
    (h : ∀ change : Grant, change.IsLast changes' ↔ change.IsLast changes) :
    setUserPermissions d actor user changes' = setUserPermissions d actor user changes := by
  rw [setUserPermissions, Grant.normalize_congr h, setUserPermissions]

/-- **The last change of a permission decides, and the roles decide on every other one.**  In every
world that the services lead to, for every list of changes, in any order and with repeats that
contradict one another, and whatever rows the user had: changing the user's permissions succeeds if
and only if the one who asks may do so, the names are all of the catalog and the user exists, and
then the changes have taken effect.  Whoever may do so and names a permission that is not of the
catalog is told that the request is not valid, and a request that fails leaves the store as it was.
Removing everything is the same as an empty list of changes, and of a list nothing counts but the
last changes. -/
theorem the_last_change_takes_effect (h : Reachable d w) (actor user : UserId)
    (changes : List Grant) :
    lossy.Yields (setUserPermissions d actor user changes).run w (fun r w' =>
      (r = .ok () ↔ Authorized d actor Permission.changeUserPermissions w ∧
        (∀ change ∈ changes, change.permission ∈ d.catalog.nameList) ∧
        w.store.users.contains user = true) ∧
      (r = .ok () → TakenEffect d user changes w w') ∧
      (Authorized d actor Permission.changeUserPermissions w →
        (∃ change ∈ changes, change.permission ∉ d.catalog.nameList) →
        ∃ detail, r = .error (.validation detail)) ∧
      FailsClean w.store r w') ∧
    resetUserPermissions d actor user = setUserPermissions d actor user [] ∧
    ∀ changes', (∀ change : Grant, change.IsLast changes' ↔ change.IsLast changes) →
      setUserPermissions d actor user changes' = setUserPermissions d actor user changes := by
  refine ⟨yields_of_ensures fun t r w' ht hf => ?_, resetUserPermissions_eq,
    fun changes' hsame => setUserPermissions_congr hsame⟩
  have hdecided := ensures_setUserPermissions h.coherent t r w' ht hf
  have hw' : w'.Coherent d.catalog :=
    keeps_of_keepsOrder (fun _ => rfl) (keepsOrder_setUserPermissions actor changes) w h.coherent
      _ _ _ ht hf
  have hsuccess := (hdecided.of_iff (and_congr_left fun _ =>
    ⟨Authorized.mem, authorized_of_mem h⟩)).ok_unit_iff
  refine ⟨hsuccess, ?_, fun hactor hunknown => ?_, hdecided.failsClean⟩
  · rintro rfl
    obtain ⟨-, hknown, -⟩ := hsuccess.mp rfl
    exact takenEffect_of_replaceUserGrants hw' hknown hdecided.written_of_ok
  · exact ensures_setUserPermissions_unknown h.coherent hactor.mem hunknown t r w' ht hf

/-- The only user, whose role gives everything, is given a permission by the user's own request,
and in the same request it is prohibited. -/
theorem the_last_change_takes_effect_over_roles :
    Reachable overseeing oneAdmin ∧
      lossy.Yields (setUserPermissions overseeing ⟨1⟩ ⟨1⟩
        [.granting Permission.editUsers, .prohibiting Permission.editUsers]).run oneAdmin
        (fun r w' => r = .ok () ∧
          lossy.Yields (isGranted overseeing ⟨1⟩ Permission.editUsers).run w'
            (fun r _ => r = .ok false)) := by
  have hreachable : Reachable overseeing oneAdmin := ⟨oneAdmin, sound_oneAdmin, rfl, .start⟩
  have hactor : Authorized overseeing ⟨1⟩ Permission.changeUserPermissions oneAdmin :=
    authorized_of_mem hreachable (by decide +kernel)
  refine ⟨hreachable, (the_last_change_takes_effect hreachable ⟨1⟩ ⟨1⟩ _).1.mono fun r w' hr => ?_⟩
  have hok := hr.1.mpr ⟨hactor, by decide +kernel, by decide +kernel⟩
  have hlast : Grant.IsLast ⟨Permission.editUsers, false⟩
      [.granting Permission.editUsers, .prohibiting Permission.editUsers] :=
    ⟨[.granting Permission.editUsers], [], rfl, List.forall_mem_nil _⟩
  exact ⟨hok, (hr.2.1 hok).changed _ _ hlast⟩

end Administration
end AccessControl
