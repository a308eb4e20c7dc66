import AccessControl.Proofs.Administration.Exchanges
import AccessControl.Proofs.World.Schedule

/-! # A renaming beside a resolution

A renaming that changes the kind of a role replaces its rows in the same write.  A resolution
reads the role and its rows one after the other.  If the write falls between the two, the kind
before it meets the rows after it, which are made for the other kind: the resolution then finds
that the role holds everything or nothing, and caches that (`Overtaken`).  That is the only way
in which a renaming is seen.
-/
namespace AccessControl.Concurrency
open Administration Authorization Outside Program World

/-- A resolution, as part of whatever call. -/
inductive Resolution where
  | ofRole (role : RoleId)
  | ofUser (user : UserId)
  /-- Of a user, unless the decision follows from what is cached. -/
  | decision (user : UserId) (name : String)

namespace Resolution

/-- What a resolution results in if it succeeds. -/
def Result : Resolution → Type
  | .ofRole _ => NameSet
  | .ofUser _ => NameSet
  | .decision _ _ => Bool

/-- The service that resolves. -/
def service (d : Deployment) : (x : Resolution) → Service x.Result
  | .ofRole role => resolveRole d role
  | .ofUser user => resolveUser d user
  | .decision user name => isGranted d user name

theorem resolves {d : Deployment} {role : RoleId} (x : Resolution) :
    Resolves d role (x.service d).run := by
  cases x with
  | ofRole other => exact resolves_resolveRole other
  | ofUser user => exact resolves_resolveUser user
  | decision user name => exact resolves_isGranted user name

end Resolution

variable {mayFail : Backend.Request → Bool} {d : Deployment} {actor : UserId} {role : RoleId}
  {name displayName : String} {current renamed : Role} {w w' : World}
  {t : List (Caller × Exchange Backend)}

/-- **A resolution is overtaken by a renaming**: between finding the role and reading its rows
the renaming writes. -/
def Overtaken (role : RoleId) (t : List (Caller × Exchange Backend)) : Prop :=
  ∃ before change after record rows,
    t = before ++ (.first, ⟨.updateRole role change, .ok ()⟩) :: after ∧
      Torn role record rows (part .second before) (part .second after)

/-- What a renaming leaves of a role whose permissions it is not to change. -/
structure Keeps (catalog : Catalog) (role : RoleId) (current renamed : Role) (s s' : Store) :
    Prop where
  found : s.findRole role = some current
  /-- The role as it is now is of the kind that its name says. -/
  kind : ∃ record, s'.findRole role = some record ∧ record.isPrivileged = renamed.isPrivileged
  /-- If it keeps its kind, it keeps its rows. -/
  kept : renamed.isPrivileged = current.isPrivileged →
    s'.grantsOfRole role = s.grantsOfRole role
  /-- If it changes its kind, it gets rows for what it held. -/
  flipped : renamed.isPrivileged ≠ current.isPrivileged → s'.grantsOfRole role =
    rowsHolding catalog renamed.isPrivileged (current.effective (s.grantsOfRole role) catalog)

namespace Keeps
variable {catalog : Catalog} {s s' : Store}

/-- **After a renaming the role holds what it held.** -/
theorem effective_after (h : Keeps catalog role current renamed s s') {record : Role}
    (hrecord : s'.findRole role = some record) :
    record.effective (s'.grantsOfRole role) catalog =
      current.effective (s.grantsOfRole role) catalog := by
  obtain ⟨record', hrecord', hkind⟩ := h.kind
  obtain rfl : record = record' := Option.some.inj (hrecord.symm.trans hrecord')
  by_cases hflip : renamed.isPrivileged = current.isPrivileged
  · rw [h.kept hflip]
    exact Role.effective_congr (hkind.trans hflip)
  · rw [h.flipped hflip, ← hkind]
    exact Role.effective_rowsHolding fun _ => Role.contains_of_mem_effective

/-- The role as it was holds the same with the rows as they are, if it keeps its kind. -/
theorem effective_torn (h : Keeps catalog role current renamed s s')
    (hkind : renamed.isPrivileged = current.isPrivileged) :
    current.effective (s'.grantsOfRole role) catalog =
      current.effective (s.grantsOfRole role) catalog := by
  rw [h.kept hkind]

/-- **The role as it was holds everything or nothing with the rows as they are**, if it changes
its kind. -/
theorem effective_torn_of_ne (h : Keeps catalog role current renamed s s')
    (hkind : renamed.isPrivileged ≠ current.isPrivileged) :
    current.effective (s'.grantsOfRole role) catalog = catalog.mistaken current.isPrivileged := by
  rw [h.flipped hkind]
  exact Role.effective_rowsHolding_of_ne hkind.symm

end Keeps

theorem keeps_of_write {s s' : Store} {grants? : Option (List Grant)}
    {reads : List (Exchange Backend)} (hreads : RenameReads d role current renamed grants? reads)
    (hread : ∀ e ∈ reads, IsRead s e)
    (hwrite : s.updateRole role (changeTo renamed grants?) = .ok s') :
    Keeps d.catalog role current renamed s s' := by
  have hfound : s.findRole role = some current := (hread _ hreads.found).symm
  have hrows := Store.grantsOfRole_updateRole hwrite
  refine ⟨hfound, ⟨_, Store.findRole_updateRole hwrite hfound, rfl⟩, fun hkind => ?_,
    fun hkind => ?_⟩
  · rw [hrows, changeTo, hreads.kept hkind]
    rfl
  · obtain ⟨before, record, rows, cached, rfl, hgrants⟩ := hreads.flipped hkind
    have hrecord : some record = s.findRole role :=
      hread ⟨.findRole role, .ok (some record)⟩ (by simp)
    have hrows' : rows = s.grantsOfRole role := hread ⟨.roleGrants role, .ok rows⟩ (by simp)
    obtain rfl := Option.some.inj (hrecord.trans hfound)
    rw [hrows, changeTo, hgrants, hrows']
    rfl

/-- **An interleaving of a renaming with a resolution, cut at the write**: on either side of the
cut everything is read from one store. -/
structure Race (mayFail : Backend.Request → Bool) (d : Deployment) (role : RoleId)
    (current renamed : Role) (w w' : World) (before after : List (Caller × Exchange Backend)) :
    Prop where
  /-- What the renaming leaves of the role. -/
  keeps : Keeps d.catalog role current renamed w.store w'.store
  earlier : ∀ e ∈ part .second before, IsRead w.store e
  later : ∀ e ∈ part .second after, IsRead w'.store e
  /-- What the renaming does after the write. -/
  last : ∃ removed, part .first after =
    [⟨.cacheDelete (CacheKey.rolePermissions role).text, removed⟩]
  /-- What is answered after the write. -/
  follows : ∃ m, (unreliable mayFail).Follows m (both after) w'

/-- **The write of a renaming cuts every interleaving with a resolution.** -/
theorem race_of_cut {before after : List (Caller × Exchange Backend)} {change : RoleChange}
    (ht : t = before ++ (.first, ⟨.updateRole role change, .ok ()⟩) :: after)
    (hrename : (renameRole d actor role name displayName).run.Transcript (part .first t)
      (.ok renamed))
    (hresolve : Resolving d role (part .second t))
    (hfollows : (unreliable mayFail).Follows w (both t) w')
    (hfound : w.store.findRole role = some current) :
    Race mayFail d role current renamed w w' before after := by
  subst ht
  rw [part_append, part_cons_self] at hrename
  rw [part_append, part_second_cons_first] at hresolve
  obtain ⟨current', grants?, removed, rfl, hreads, hlast⟩ := renameRole_cut hrename
  obtain ⟨hearlier, hlater⟩ := List.forall_mem_append.mp hresolve.writes_eq_false
  obtain ⟨m, m', hstore, hwrite, hafter, hread⟩ :=
    follows_cut_write hfollows (forall_mem_both hreads.writes hearlier)
  -- After the write the renaming only removes from the cache, so the store stays as it is.
  obtain ⟨hstore', hread'⟩ := follows_reading hafter
    (forall_mem_both (by simp [hlast, Backend.Request.writes]) hlater)
  have hdone := updateRole_of_answers hwrite
  rw [hstore, ← hstore'] at hdone
  rw [← hstore'] at hread'
  have hkeeps := keeps_of_write hreads (hread .first) hdone
  obtain rfl : current = current' := Option.some.inj (hfound.symm.trans hkeeps.found)
  exact ⟨hkeeps, hread .second, fun e he => hread' e (mem_both_of_mem_part he),
    ⟨removed, hlast⟩, m', hafter⟩

/-- What a resolution caches for a role is what it has computed. -/
theorem held_eq_of_caching {held : NameSet} {record : Role} {rows : List Grant}
    {seconds : UInt32}
    (h : cachingOf d role record rows = .cacheSet (CacheKey.rolePermissions role).text
      (Json.write (Cached.RolePermissions.mk role held)) seconds) :
    held = record.effective rows d.catalog := by
  have hwritten : Json.write (itemOf d role record rows) =
      Json.write (Cached.RolePermissions.mk role held) := (Backend.Request.cacheSet.inj h).2.1
  exact (congrArg Cached.RolePermissions.granted (Json.write_injective hwritten)).symm

/-- **What a resolution computes for a role that is being renamed** is what the role holds, or
it was overtaken by a renaming that changes the kind. -/
theorem Race.computes {before after : List (Caller × Exchange Backend)}
    (h : Race mayFail d role current renamed w w' before after) (change : RoleChange)
    (hresolve : Resolving d role (part .second before ++ part .second after)) {held : NameSet}
    (hheld : Computes d role held (part .second before ++ part .second after)) :
    held = current.effective (w.store.grantsOfRole role) d.catalog ∨
      renamed.isPrivileged ≠ current.isPrivileged ∧
      Overtaken role (before ++ (.first, ⟨.updateRole role change, .ok ()⟩) :: after) ∧
      held = d.catalog.mistaken current.isPrivileged := by
  obtain ⟨e, he, hset⟩ := hheld
  obtain ⟨record, rows, hcaching, hread⟩ := hresolve.split he hset
  obtain rfl := held_eq_of_caching (hcaching.symm.trans hset)
  -- What is computed was read before the write, or after it, or on both sides of it.
  rcases hread with ⟨hrecord, hrows⟩ | ⟨hrecord, hrows⟩ | htorn
  · obtain rfl := Option.some.inj ((h.earlier _ hrecord).trans h.keeps.found)
    rw [show rows = _ from h.earlier _ hrows]
    exact .inl rfl
  · rw [show rows = _ from h.later _ hrows]
    exact .inl (h.keeps.effective_after (h.later _ hrecord).symm)
  · have hovertaken : Overtaken role
        (before ++ (.first, ⟨.updateRole role change, .ok ()⟩) :: after) :=
      ⟨before, change, after, record, rows, rfl, htorn⟩
    obtain ⟨⟨earlier, hbefore⟩, later, hafter⟩ := htorn
    have hrecord : some record = w.store.findRole role :=
      h.earlier ⟨.findRole role, .ok (some record)⟩ (by simp [hbefore])
    have hrows : rows = w'.store.grantsOfRole role :=
      h.later ⟨.roleGrants role, .ok rows⟩ (by simp [hafter])
    obtain rfl := Option.some.inj (hrecord.trans h.keeps.found)
    rw [hrows]
    by_cases hkind : renamed.isPrivileged = record.isPrivileged
    · exact .inl (h.keeps.effective_torn hkind)
    · exact .inr ⟨hkind, hovertaken, h.keeps.effective_torn_of_ne hkind⟩

/-- **A resolution that is overtaken computes everything or nothing.** -/
theorem Race.computes_of_torn {before after : List (Caller × Exchange Backend)}
    (h : Race mayFail d role current renamed w w' before after)
    (hresolve : Resolving d role (part .second before ++ part .second after)) {record : Role}
    {rows : List Grant} (htorn : Torn role record rows (part .second before) (part .second after))
    (hkind : renamed.isPrivileged ≠ current.isPrivileged) :
    Computes d role (d.catalog.mistaken current.isPrivileged)
      (part .second before ++ part .second after) := by
  obtain ⟨⟨earlier, hbefore⟩, later, hafter⟩ := htorn
  have hrecord : some record = w.store.findRole role :=
    h.earlier ⟨.findRole role, .ok (some record)⟩ (by simp [hbefore])
  have hrows : rows = w'.store.grantsOfRole role :=
    h.later ⟨.roleGrants role, .ok rows⟩ (by simp [hafter])
  obtain rfl := Option.some.inj (hrecord.trans h.keeps.found)
  rw [hbefore, hafter, List.append_assoc] at hresolve
  obtain ⟨e, he, hcaching⟩ := hresolve.after_reading
  refine ⟨e, ?_, ?_⟩
  · rw [hbefore, hafter]
    simp [he]
  · rw [hcaching, cachingOf, itemOf, hrows, h.keeps.effective_torn_of_ne hkind]

/-- **What stays cached for a renamed role is what the resolution has computed**, since the
renaming removes everything else. -/
theorem Race.computes_of_holds {before after : List (Caller × Exchange Backend)}
    (h : Race mayFail d role current renamed w w' before after)
    (hdelete : ∀ key, mayFail (.cacheDelete key) = false)
    (hresolve : Resolving d role (part .second before ++ part .second after)) {value : String}
    {item : Cached.RolePermissions} (hheld : w'.Holds (.rolePermissions role) value)
    (hitem : Json.decode? value = some item) :
    Computes d role item.granted (part .second before ++ part .second after) := by
  obtain ⟨removed, hlast⟩ := h.last
  obtain ⟨m, hafter⟩ := h.follows
  obtain ⟨between, rest, rfl, hbetween, hrest⟩ := exists_of_part_eq_cons hlast
  obtain ⟨v, v', -, hremove, hfollows⟩ := follows_cut hafter
  -- The removal took away what was there, so the value was cached after it, by the resolution.
  rcases holds_of_follows hfollows hheld with hold | hspoilt | ⟨e, he, seconds, hset⟩
  · exact absurd hold ((remove_answers (hdelete _) hremove).2 _)
  · exact absurd (hitem.symm.trans hspoilt) (by simp)
  · have hmem : e ∈ part .second before ++ part .second
        (between ++ (.first, ⟨.cacheDelete (CacheKey.rolePermissions role).text, removed⟩) ::
          rest) := by
      rcases mem_both_iff.mp he with hfirst | hsecond
      · rw [hrest] at hfirst
        exact absurd hfirst List.not_mem_nil
      · simp [hsecond]
    obtain ⟨record, rows, hcaching, -⟩ := hresolve.split hmem hset
    obtain ⟨-, rfl, -⟩ := Backend.Request.cacheSet.inj (hset.symm.trans hcaching)
    obtain rfl := Json.eq_of_decode?_write hitem
    exact ⟨e, hmem, hcaching⟩

/-- **A renaming is seen by a resolution only if it overtakes it.**  A role is renamed with
success while it is resolved, in whatever order the requests of both are answered.  Everything
that the resolution computes for the role is what the role holds, and nothing else stays cached
for it, exactly unless the renaming changes the kind of the role and writes between the finding
of the role and the reading of its rows: then the resolution finds that the role holds
everything, or nothing. -/
theorem rename_unseen_iff_not_overtaken (hdelete : ∀ key, mayFail (.cacheDelete key) = false)
    (hfound : w.store.findRole role = some current)
    (hrename : (renameRole d actor role name displayName).run.Transcript (part .first t)
      (.ok renamed))
    {x : Resolution} {r : Except Failure x.Result}
    (hresolve : (x.service d).run.Transcript (part .second t) r)
    (hfollows : (unreliable mayFail).Follows w (both t) w') :
    ((∀ held, Computes d role held (part .second t) →
        held = current.effective (w.store.grantsOfRole role) d.catalog) ∧
      ∀ value (item : Cached.RolePermissions), w'.Holds (.rolePermissions role) value →
        Json.decode? value = some item →
        item.granted = current.effective (w.store.grantsOfRole role) d.catalog) ↔
    ¬(renamed.isPrivileged ≠ current.isPrivileged ∧ Overtaken role t ∧
      d.catalog.mistaken current.isPrivileged ≠
        current.effective (w.store.grantsOfRole role) d.catalog) := by
  have hresolving : Resolving d role (part .second t) := x.resolves _ _ hresolve
  constructor
  · rintro ⟨hcomputes, -⟩ ⟨hkind, hovertaken, hne⟩
    obtain ⟨before, change, after, record, rows, rfl, htorn⟩ := hovertaken
    have hrace := race_of_cut rfl hrename hresolving hfollows hfound
    rw [part_append, part_second_cons_first] at hresolving hcomputes
    exact hne (hcomputes _ (hrace.computes_of_torn hresolving htorn hkind))
  · intro hnot
    obtain ⟨reads, _, grants?, _, _, hpart⟩ := transcript_renameRole_ok hrename
    obtain ⟨before, after, rfl, -, -⟩ := exists_of_part_eq hpart
    have hrace := race_of_cut rfl hrename hresolving hfollows hfound
    rw [part_append, part_second_cons_first] at hresolving ⊢
    have hcomputes : ∀ held, Computes d role held (part .second before ++ part .second after) →
        held = current.effective (w.store.grantsOfRole role) d.catalog := by
      intro held hheld
      rcases hrace.computes (changeTo renamed grants?) hresolving hheld with
        hsame | ⟨hkind, hovertaken, rfl⟩
      · exact hsame
      · refine Decidable.byContradiction fun hne => hnot ⟨hkind, hovertaken, hne⟩
    exact ⟨hcomputes, fun value item hheld hitem =>
      hcomputes _ (hrace.computes_of_holds hdelete hresolving hheld hitem)⟩

/-! ## One role among one permission -/

/-- The catalog with nothing but the permission to edit roles. -/
def editing : Catalog := .single ⟨⟨Permission.editRoles⟩, ⟨"Edit role"⟩, ⟨"Roles"⟩⟩

/-- A deployment with this catalog. -/
def deployment : Deployment := ⟨editing, 60, {}⟩

/-- A world with one role, and with one user who may edit roles. -/
def oneRole (record : Role) (rows : List Grant) : World :=
  World.ofStore { Store.empty with
    roles := Table.empty.insert record.id record
    roleGrants := Table.empty.insert record.id rows
    users := Table.empty.insert ⟨1⟩
      ⟨"alice", ⟨.repeating 0⟩, [], [Grant.granting Permission.editRoles]⟩ }

/-- A privileged role that holds nothing. -/
def idleAdmin : World :=
  oneRole ⟨⟨1⟩, "Admin", "Admin", true⟩ [Grant.prohibiting Permission.editRoles]

/-- The role is renamed, and between the two readings of a resolution the renaming writes; it
has made some requests before. -/
def renameBetweenReadings (earlier : Nat) (name : String) :
    List (Caller × Exchange Backend) × Program Backend (Except Failure Role) ×
      Program Backend (Except Failure NameSet) × World :=
  weave (List.replicate earlier .first ++ [.second, .first, .first, .second, .second])
    (renameRole deployment ⟨1⟩ ⟨1⟩ name "Role").run (resolveRole deployment ⟨1⟩).run idleAdmin

/-- A renaming that keeps the kind of the role is not seen, even between the two readings. -/
theorem rename_unseen_between_readings :
    (∀ held, Computes deployment ⟨1⟩ held (part .second (renameBetweenReadings 6 "ADMIN").1) →
        held = ∅) ∧
      ∀ value (item : Cached.RolePermissions),
        (renameBetweenReadings 6 "ADMIN").2.2.2.Holds (.rolePermissions ⟨1⟩) value →
        Json.decode? value = some item → item.granted = ∅ := by
  have hrename : (renameBetweenReadings 6 "ADMIN").2.1 =
      .done (.ok ⟨⟨1⟩, "ADMIN", "Role", true⟩) := rfl
  have hresolve : (renameBetweenReadings 6 "ADMIN").2.2.1 = .done (.ok ∅) := rfl
  have hfound : idleAdmin.store.findRole ⟨1⟩ = some ⟨⟨1⟩, "Admin", "Admin", true⟩ := rfl
  have hresolved : ((Resolution.ofRole ⟨1⟩).service deployment).run.Transcript
      (part .second (renameBetweenReadings 6 "ADMIN").1) (.ok (∅ : NameSet)) :=
    transcript_second_of_done hresolve
  have hfollows : (unreliable fun _ => false).Follows idleAdmin
      (both (renameBetweenReadings 6 "ADMIN").1) (renameBetweenReadings 6 "ADMIN").2.2.2 :=
    follows_weave _ _ _ _
  exact (rename_unseen_iff_not_overtaken (fun _ => rfl) hfound (transcript_first_of_done hrename)
    hresolved hfollows).mpr fun h => h.1 rfl

/-- **A renaming that changes the kind of the role is seen between the two readings**: a role
that holds nothing before and after is found to hold the whole catalog, and this stays cached. -/
theorem rename_seen_between_readings :
    ∃ t w', (renameRole deployment ⟨1⟩ ⟨1⟩ "Staff" "Role").run.Transcript (part .first t)
        (.ok ⟨⟨1⟩, "Staff", "Role", false⟩) ∧
      (resolveRole deployment ⟨1⟩).run.Transcript (part .second t) (.ok editing.names) ∧
      (unreliable fun _ => false).Follows idleAdmin (both t) w' ∧
      idleAdmin.store.roleSet editing ⟨1⟩ = some ∅ ∧ w'.store.roleSet editing ⟨1⟩ = some ∅ ∧
      w'.Holds (.rolePermissions ⟨1⟩) (Json.write (Cached.RolePermissions.mk ⟨1⟩ editing.names)) ∧
      editing.names ≠ ∅ := by
  have hrename : (renameBetweenReadings 9 "Staff").2.1 =
      .done (.ok ⟨⟨1⟩, "Staff", "Role", false⟩) := rfl
  have hresolve : (renameBetweenReadings 9 "Staff").2.2.1 = .done (.ok editing.names) := rfl
  have hheld : (renameBetweenReadings 9 "Staff").2.2.2.Holds (.rolePermissions ⟨1⟩)
      (Json.write (Cached.RolePermissions.mk ⟨1⟩ editing.names)) := rfl
  exact ⟨_, _, transcript_first_of_done hrename, transcript_second_of_done hresolve,
    follows_weave _ _ _ _, rfl, rfl, hheld, by decide⟩

end AccessControl.Concurrency
