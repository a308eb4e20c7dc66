import AccessControl.Proofs.Concurrency.RenameAndResolve

/-! # A renaming beside a setting of permissions

A setting of permissions finds the kind of the role and then writes rows for it.  A renaming
that changes the kind reads what the role holds and then writes rows for that.  Each has one
write, and one of the two writes comes last.

* If the setting writes last, and found the role before the renaming wrote (`SetOvertaken`), its
  rows are for the kind that the role no longer is: the role holds everything or nothing.
* If the renaming writes last, and read the rows before the setting wrote (`RenameOvertaken`),
  it writes what the role held before both: the setting is lost.

In every other order, and in every order if the kind stays, the role holds what was set.
-/
namespace AccessControl.Concurrency
open Administration Authorization Outside Program World

/-- **A setting is overtaken by a renaming**: when the renaming writes, the next thing that the
setting does is to write. -/
def SetOvertaken (role : RoleId) (t : List (Caller × Exchange Backend)) : Prop :=
  ∃ (before after : List (Caller × Exchange Backend)) (change : RoleChange) (rows : List Grant)
    (rest : List (Exchange Backend)),
    t = before ++ (.first, ⟨.updateRole role change, .ok ()⟩) :: after ∧
      part .second after = ⟨.replaceRoleGrants role rows, .ok ()⟩ :: rest

/-- **A renaming is overtaken by a setting**: when the setting writes, the renaming has still to
write, but it reads the rows of the role no more. -/
def RenameOvertaken (role : RoleId) (t : List (Caller × Exchange Backend)) : Prop :=
  ∃ (before after : List (Caller × Exchange Backend)) (rows : List Grant) (change : RoleChange),
    t = before ++ (.second, ⟨.replaceRoleGrants role rows, .ok ()⟩) :: after ∧
      ⟨.updateRole role change, .ok ()⟩ ∈ part .first after ∧
      ∀ e ∈ part .first after, e.request ≠ Backend.Request.roleGrants role

variable {mayFail : Backend.Request → Bool} {d : Deployment} {actor actor' : UserId}
  {role : RoleId} {name displayName : String} {granted : List String} {current renamed : Role}
  {w w' : World} {t : List (Caller × Exchange Backend)}

/-! ## The renaming writes last -/

section RenamesLast
variable {before between after : List (Caller × Exchange Backend)} {rows : List Grant}
  {change : RoleChange}

/-- **An interleaving in which the renaming writes last**, cut at both writes.  The stores are
those before the first write, between the writes, and after the last. -/
structure RenamesLast (d : Deployment) (role : RoleId) (granted : List String)
    (current renamed : Role) (s s' s'' : Store)
    (before between : List (Caller × Exchange Backend)) : Prop where
  known : ∀ name ∈ SortedSet.ofList granted, d.catalog.contains name = true
  /-- The role as it was is there until it is renamed. -/
  found : s'.findRole role = some current
  /-- Between the writes the role has the rows that were set. -/
  rows : s'.grantsOfRole role = rowsHolding d.catalog current.isPrivileged (.ofList granted)
  earlier : ∀ e ∈ part .first before, IsRead s e
  later : ∀ e ∈ part .first between, IsRead s' e
  /-- The role was found before the first write too. -/
  start : s.findRole role = some current
  /-- What the renaming reads, and what it writes. -/
  renames : ∃ grants?, RenameReads d role current renamed grants?
      (part .first before ++ part .first between) ∧
    s'.updateRole role (changeTo renamed grants?) = .ok s''

theorem renamesLast_of_cut
    (ht : t = before ++ (.second, ⟨.replaceRoleGrants role rows, .ok ()⟩) ::
      (between ++ (.first, ⟨.updateRole role change, .ok ()⟩) :: after))
    (hrename : (renameRole d actor role name displayName).run.Transcript (part .first t)
      (.ok renamed))
    (hset : (setRolePermissions d actor' role granted).run.Transcript (part .second t) (.ok ()))
    (hfollows : (unreliable mayFail).Follows w (both t) w')
    (hfound : w.store.findRole role = some current) :
    ∃ s', RenamesLast d role granted current renamed w.store s' w'.store before between := by
  subst ht
  have hknown := (transcript_setRolePermissions_ok hset).1
  simp only [part_append, part_cons_self, part_first_cons_second, part_second_cons_first]
    at hrename hset
  rw [← List.append_assoc] at hrename
  obtain ⟨current', grants?, removed, rfl, hreads, hlast⟩ := renameRole_cut hrename
  obtain ⟨reads, record, removed', rfl, hjust, hreads', hlast'⟩ := setRolePermissions_cut hset
  obtain ⟨hreadsBefore, hreadsBetween⟩ := List.forall_mem_append.mp hreads.writes
  have hjustReads : ∀ e ∈ part .second before, e.request.writes = false := by
    rw [hjust]
    exact List.forall_mem_append.mpr ⟨hreads', by simp [Backend.Request.writes]⟩
  obtain ⟨hrestBetween, hrestAfter⟩ := List.forall_mem_append.mp
    (show ∀ e ∈ part .second between ++ part .second after, e.request.writes = false by
      rw [hlast']
      simp [Backend.Request.writes])
  obtain ⟨m, m', hm, hreplace, hrest, hread⟩ :=
    follows_cut_write hfollows (forall_mem_both hreadsBefore hjustReads)
  obtain ⟨v, v', hv, hupdate, hafter, hread'⟩ :=
    follows_cut_write hrest (forall_mem_both hreadsBetween hrestBetween)
  obtain ⟨hw', -⟩ := follows_reading hafter
    (forall_mem_both (by simp [hlast, Backend.Request.writes]) hrestAfter)
  -- Of the three stores the middle one is what the setting left and the renaming found.
  have hreplaced := replaceRoleGrants_of_answers hreplace
  have hupdated := updateRole_of_answers hupdate
  rw [hm] at hreplaced
  rw [hv, ← hw'] at hupdated
  have hfound' : m'.store.findRole role = some current :=
    (Store.findRole_replaceRoleGrants hreplaced).trans hfound
  have hrecord : some record = w.store.findRole role :=
    hread .second ⟨.findRole role, .ok (some record)⟩ (by simp [hjust])
  obtain rfl : record = current := Option.some.inj (hrecord.trans hfound)
  -- Rows alone do not change the kind, so it does not matter on which side the role was found.
  have hcurrent : current' = record := by
    rcases List.mem_append.mp hreads.found with hmem | hmem
    · exact Option.some.inj ((hread .first _ hmem).trans hfound)
    · exact Option.some.inj ((hread' .first _ hmem).trans hfound')
  exact ⟨m'.store, hknown, hfound', Store.grantsOfRole_replaceRoleGrants hreplaced,
    hread .first, hread' .first, hfound, grants?, hcurrent ▸ hreads, hupdated⟩

/-- What a role holds once it is renamed follows from its new kind and its rows. -/
theorem roleSet_updateRole {s s' : Store} {grants? : Option (List Grant)}
    (h : s.updateRole role (changeTo renamed grants?) = .ok s')
    (hfound : s.findRole role = some current) (catalog : Catalog) :
    s'.roleSet catalog role =
      some (renamed.effective (grants?.getD (s.grantsOfRole role)) catalog) := by
  rw [Store.roleSet, Store.findRole_updateRole h hfound, Store.grantsOfRole_updateRole h]
  exact congrArg some (Role.effective_congr rfl)

/-- Of two exchanges of which one comes last but one, that one is in every end of the list that
has more than the last. -/
theorem mem_of_append_eq {α : Type} {earlier left right : List α} {f g c e : α}
    (h : left ++ right = earlier ++ [f, g, c]) (he : e ∈ right) (hne : e ≠ c) : g ∈ right := by
  have hcut : (earlier ++ [f]) ++ g :: [c] = left ++ right := by simp [h]
  rcases mem_or_of_append_cons_eq hcut with hg | ⟨-, u, hu⟩
  · exact hg
  · -- An end without the last but one has the last at the most.
    have hmem : e ∈ [c] := hu ▸ List.mem_append_right u he
    exact absurd (List.mem_singleton.mp hmem) hne

namespace RenamesLast
variable {s s' s'' : Store}

/-- A renaming that keeps the kind of the role keeps what was set. -/
theorem roleSet_of_kept (h : RenamesLast d role granted current renamed s s' s'' before between)
    (hkind : renamed.isPrivileged = current.isPrivileged) :
    s''.roleSet d.catalog role = some (.ofList granted) := by
  obtain ⟨grants?, hreads, hwrite⟩ := h.renames
  rw [roleSet_updateRole hwrite h.found, hreads.kept hkind, Option.getD_none, h.rows, ← hkind]
  exact congrArg some (Role.effective_rowsHolding h.known)

/-- A renaming that changes the kind writes what it has read that the role holds. -/
theorem roleSet_of_flipped (h : RenamesLast d role granted current renamed s s' s'' before between)
    (hkind : renamed.isPrivileged ≠ current.isPrivileged) :
    ∃ earlier record rows cached, part .first before ++ part .first between =
        earlier ++ [⟨.findRole role, .ok (some record)⟩, ⟨.roleGrants role, .ok rows⟩,
          ⟨cachingOf d role record rows, cached⟩] ∧
      s''.roleSet d.catalog role = some (current.effective rows d.catalog) := by
  obtain ⟨grants?, hreads, hwrite⟩ := h.renames
  obtain ⟨earlier, record, rows, cached, heq, hgrants⟩ := hreads.flipped hkind
  have hrecord : record = current := by
    have hmem : (⟨.findRole role, .ok (some record)⟩ : Exchange Backend) ∈
        part .first before ++ part .first between := by simp [heq]
    rcases List.mem_append.mp hmem with hmem | hmem
    · exact Option.some.inj ((h.earlier _ hmem).trans h.start)
    · exact Option.some.inj ((h.later _ hmem).trans h.found)
  refine ⟨earlier, record, rows, cached, heq, ?_⟩
  rw [roleSet_updateRole hwrite h.found, hgrants, Option.getD_some, hrecord]
  exact congrArg some (Role.effective_rowsHolding fun _ => Role.contains_of_mem_effective)

/-- **A renaming that reads before the setting writes undoes the setting.** -/
theorem roleSet_of_overtaken
    (h : RenamesLast d role granted current renamed s s' s'' before between)
    (hkind : renamed.isPrivileged ≠ current.isPrivileged)
    (hno : ∀ e ∈ part .first between, e.request ≠ Backend.Request.roleGrants role) :
    s''.roleSet d.catalog role = some (current.effective (s.grantsOfRole role) d.catalog) := by
  obtain ⟨earlier, record, rows, cached, heq, hset⟩ := h.roleSet_of_flipped hkind
  have hmem : (⟨.roleGrants role, .ok rows⟩ : Exchange Backend) ∈
      part .first before ++ part .first between := by simp [heq]
  rcases List.mem_append.mp hmem with hmem | hmem
  · rw [hset, show rows = _ from h.earlier _ hmem]
  · exact absurd rfl (hno _ hmem)

/-- **A renaming that reads after the setting writes keeps what was set.** -/
theorem roleSet_of_read (h : RenamesLast d role granted current renamed s s' s'' before between)
    (hkind : renamed.isPrivileged ≠ current.isPrivileged) {e : Exchange Backend}
    (he : e ∈ part .first between) (hread : e.request = .roleGrants role) :
    s''.roleSet d.catalog role = some (.ofList granted) := by
  obtain ⟨earlier, record, rows, cached, heq, hset⟩ := h.roleSet_of_flipped hkind
  have hmem : (⟨.roleGrants role, .ok rows⟩ : Exchange Backend) ∈ part .first between :=
    mem_of_append_eq heq he (by rintro rfl; exact nomatch hread)
  rw [hset, show rows = _ from h.later _ hmem, h.rows]
  exact congrArg some (Role.effective_rowsHolding h.known)

end RenamesLast
end RenamesLast

/-! ## The setting writes last -/

section SetsLast
variable {before between after : List (Caller × Exchange Backend)} {rows : List Grant}
  {change : RoleChange}

/-- **An interleaving in which the setting writes last**, cut at both writes.  The stores are
those before the first write, between the writes, and after the last. -/
structure SetsLast (d : Deployment) (role : RoleId) (granted : List String)
    (current renamed : Role) (s s' s'' : Store)
    (before between : List (Caller × Exchange Backend)) : Prop where
  known : ∀ name ∈ SortedSet.ofList granted, d.catalog.contains name = true
  /-- What the renaming leaves of the role. -/
  keeps : Keeps d.catalog role current renamed s s'
  earlier : ∀ e ∈ part .second before, IsRead s e
  later : ∀ e ∈ part .second between, IsRead s' e
  /-- What the setting finds last, and what it writes. -/
  sets : ∃ reads record, part .second before ++ part .second between =
      reads ++ [⟨.findRole role, .ok (some record)⟩] ∧
    s'.replaceRoleGrants role
      (rowsHolding d.catalog record.isPrivileged (.ofList granted)) = .ok s''

theorem setsLast_of_cut
    (ht : t = before ++ (.first, ⟨.updateRole role change, .ok ()⟩) ::
      (between ++ (.second, ⟨.replaceRoleGrants role rows, .ok ()⟩) :: after))
    (hrename : (renameRole d actor role name displayName).run.Transcript (part .first t)
      (.ok renamed))
    (hset : (setRolePermissions d actor' role granted).run.Transcript (part .second t) (.ok ()))
    (hfollows : (unreliable mayFail).Follows w (both t) w')
    (hfound : w.store.findRole role = some current) :
    ∃ s', SetsLast d role granted current renamed w.store s' w'.store before between := by
  subst ht
  have hknown := (transcript_setRolePermissions_ok hset).1
  simp only [part_append, part_cons_self, part_first_cons_second, part_second_cons_first]
    at hrename hset
  rw [← List.append_assoc] at hset
  obtain ⟨current', grants?, removed, rfl, hreads, hlast⟩ := renameRole_cut hrename
  obtain ⟨reads, record, removed', rfl, hjust, hreads', hlast'⟩ := setRolePermissions_cut hset
  obtain ⟨hreadsBefore, hreadsBetween⟩ := List.forall_mem_append.mp
    (show ∀ e ∈ part .second before ++ part .second between, e.request.writes = false by
      rw [hjust]
      exact List.forall_mem_append.mpr ⟨hreads', by simp [Backend.Request.writes]⟩)
  obtain ⟨hrestBetween, hrestAfter⟩ := List.forall_mem_append.mp
    (show ∀ e ∈ part .first between ++ part .first after, e.request.writes = false by
      rw [hlast]
      simp [Backend.Request.writes])
  obtain ⟨m, m', hm, hupdate, hrest, hread⟩ :=
    follows_cut_write hfollows (forall_mem_both hreads.writes hreadsBefore)
  obtain ⟨v, v', hv, hreplace, hafter, hread'⟩ :=
    follows_cut_write hrest (forall_mem_both hrestBetween hreadsBetween)
  obtain ⟨hw', -⟩ := follows_reading hafter
    (forall_mem_both hrestAfter (by simp [hlast', Backend.Request.writes]))
  have hupdated := updateRole_of_answers hupdate
  have hreplaced := replaceRoleGrants_of_answers hreplace
  rw [hm] at hupdated
  rw [hv, ← hw'] at hreplaced
  have hkeeps := keeps_of_write hreads (hread .first) hupdated
  obtain rfl : current = current' := Option.some.inj (hfound.symm.trans hkeeps.found)
  exact ⟨m'.store, hknown, hkeeps, hread .second, hread' .second, reads, record, hjust, hreplaced⟩

/-- What a role holds once rows were written for it follows from its kind and the rows. -/
theorem roleSet_replaceRoleGrants {s s' : Store} {record : Role}
    (h : s.replaceRoleGrants role rows = .ok s') (hfound : s.findRole role = some record)
    (catalog : Catalog) : s'.roleSet catalog role = some (record.effective rows catalog) := by
  rw [Store.roleSet, Store.findRole_replaceRoleGrants h, hfound,
    Store.grantsOfRole_replaceRoleGrants h]
  rfl

namespace SetsLast
variable {s s' s'' : Store}

/-- Rows that were made for the kind that the role has do what they are to do. -/
theorem roleSet_of_kind (h : SetsLast d role granted current renamed s s' s'' before between)
    {record : Role} (hkind : record.isPrivileged = renamed.isPrivileged)
    (hwrite : s'.replaceRoleGrants role
      (rowsHolding d.catalog record.isPrivileged (.ofList granted)) = .ok s'') :
    s''.roleSet d.catalog role = some (.ofList granted) := by
  obtain ⟨record', hrecord', hkind'⟩ := h.keeps.kind
  rw [roleSet_replaceRoleGrants hwrite hrecord', hkind, ← hkind']
  exact congrArg some (Role.effective_rowsHolding h.known)

/-- A setting that has found the role before the renaming writes has found it as it was. -/
theorem record_eq (h : SetsLast d role granted current renamed s s' s'' before between)
    (hnone : part .second between = []) {reads : List (Exchange Backend)} {record : Role}
    (heq : part .second before ++ part .second between =
      reads ++ [⟨.findRole role, .ok (some record)⟩]) : record = current := by
  rw [hnone, List.append_nil] at heq
  have hrecord : some record = s.findRole role :=
    h.earlier ⟨.findRole role, .ok (some record)⟩ (by simp [heq])
  exact Option.some.inj (hrecord.trans h.keeps.found)

/-- **A setting that finds the role after the renaming writes sets what it is to set.** -/
theorem roleSet_of_found (h : SetsLast d role granted current renamed s s' s'' before between)
    (hsome : part .second between ≠ []) :
    s''.roleSet d.catalog role = some (.ofList granted) := by
  obtain ⟨reads, record, heq, hwrite⟩ := h.sets
  -- The last thing that a setting does before it writes is to find the role.
  have hlast := congrArg List.getLast? heq
  rw [List.getLast?_append, List.getLast?_eq_some_getLast hsome, Option.some_or,
    List.getLast?_concat] at hlast
  obtain ⟨record', hrecord', hkind⟩ := h.keeps.kind
  have hmem : (⟨.findRole role, .ok (some record)⟩ : Exchange Backend) ∈ part .second between :=
    Option.some.inj hlast ▸ List.getLast_mem hsome
  have hrecord : some record = s'.findRole role := h.later _ hmem
  obtain rfl := Option.some.inj (hrecord.trans hrecord')
  exact h.roleSet_of_kind hkind hwrite

/-- A setting beside a renaming that keeps the kind sets what it is to set. -/
theorem roleSet_of_kept (h : SetsLast d role granted current renamed s s' s'' before between)
    (hkind : renamed.isPrivileged = current.isPrivileged) :
    s''.roleSet d.catalog role = some (.ofList granted) := by
  by_cases hnone : part .second between = []
  · obtain ⟨reads, record, heq, hwrite⟩ := h.sets
    obtain rfl := h.record_eq hnone heq
    exact h.roleSet_of_kind hkind.symm hwrite
  · exact h.roleSet_of_found hnone

/-- **A setting that found the role before the renaming changed its kind gives it everything or
nothing.** -/
theorem roleSet_of_overtaken (h : SetsLast d role granted current renamed s s' s'' before between)
    (hkind : renamed.isPrivileged ≠ current.isPrivileged) (hnone : part .second between = []) :
    s''.roleSet d.catalog role = some (d.catalog.mistaken renamed.isPrivileged) := by
  obtain ⟨reads, record, heq, hwrite⟩ := h.sets
  obtain rfl := h.record_eq hnone heq
  obtain ⟨record', hrecord', hkind'⟩ := h.keeps.kind
  rw [← hkind'] at hkind ⊢
  rw [roleSet_replaceRoleGrants hwrite hrecord']
  exact congrArg some (Role.effective_rowsHolding_of_ne hkind)

end SetsLast
end SetsLast

/-! ## Either order -/

/-- Of the two writes one comes last. -/
theorem exists_cut
    (hrename : (renameRole d actor role name displayName).run.Transcript (part .first t)
      (.ok renamed))
    (hset : (setRolePermissions d actor' role granted).run.Transcript (part .second t) (.ok ())) :
    ∃ (before between after : List (Caller × Exchange Backend)) (change : RoleChange)
      (rows : List Grant),
      t = before ++ (.second, ⟨.replaceRoleGrants role rows, .ok ()⟩) ::
        (between ++ (.first, ⟨.updateRole role change, .ok ()⟩) :: after) ∨
      t = before ++ (.first, ⟨.updateRole role change, .ok ()⟩) ::
        (between ++ (.second, ⟨.replaceRoleGrants role rows, .ok ()⟩) :: after) := by
  obtain ⟨_, _, grants?, _, -, hfirst⟩ := transcript_renameRole_ok hrename
  obtain ⟨-, _, record, _, -, hsecond⟩ := transcript_setRolePermissions_ok hset
  obtain ⟨before, after, rfl, -, -⟩ := exists_of_part_eq hfirst
  rw [part_append, part_second_cons_first] at hsecond
  have hmem : ⟨.replaceRoleGrants role (rowsHolding d.catalog record.isPrivileged
      (.ofList granted)), .ok ()⟩ ∈ part .second before ++ part .second after := by
    rw [hsecond]
    simp
  rcases List.mem_append.mp hmem with hmem | hmem
  · obtain ⟨left, right, hsplit⟩ := List.append_of_mem hmem
    obtain ⟨before', between, rfl, -, -⟩ := exists_of_part_eq hsplit
    exact ⟨before', between, after, _, _, .inl (by rw [List.append_assoc, List.cons_append])⟩
  · obtain ⟨left, right, hsplit⟩ := List.append_of_mem hmem
    obtain ⟨between, after', rfl, -, -⟩ := exists_of_part_eq hsplit
    exact ⟨before, between, after', _, _, .inr rfl⟩

/-- A renaming that reads no rows between the writes is overtaken, since it reads none later. -/
theorem renameOvertaken_of_cut {before between after : List (Caller × Exchange Backend)}
    {rows : List Grant} {change : RoleChange}
    (hrename : (renameRole d actor role name displayName).run.Transcript
      (part .first (before ++ (.second, ⟨.replaceRoleGrants role rows, .ok ()⟩) ::
        (between ++ (.first, ⟨.updateRole role change, .ok ()⟩) :: after))) (.ok renamed))
    (hno : ∀ e ∈ part .first between, e.request ≠ Backend.Request.roleGrants role) :
    RenameOvertaken role (before ++ (.second, ⟨.replaceRoleGrants role rows, .ok ()⟩) ::
      (between ++ (.first, ⟨.updateRole role change, .ok ()⟩) :: after)) := by
  simp only [part_append, part_cons_self, part_first_cons_second] at hrename
  rw [← List.append_assoc] at hrename
  obtain ⟨_, _, _, -, -, hlast⟩ := renameRole_cut hrename
  refine ⟨before, _, rows, change, rfl, by simp, ?_⟩
  rw [part_append, part_cons_self, hlast]
  exact List.forall_mem_append.mpr ⟨hno, by simp⟩

section Values
variable (hfound : w.store.findRole role = some current)
  (hrename : (renameRole d actor role name displayName).run.Transcript (part .first t)
    (.ok renamed))
  (hset : (setRolePermissions d actor' role granted).run.Transcript (part .second t) (.ok ()))
  (hfollows : (unreliable mayFail).Follows w (both t) w')
include hfound hrename hset hfollows

/-- **An overtaken setting gives the role everything or nothing.** -/
theorem roleSet_of_setOvertaken (hkind : renamed.isPrivileged ≠ current.isPrivileged)
    (h : SetOvertaken role t) :
    w'.store.roleSet d.catalog role = some (d.catalog.mistaken renamed.isPrivileged) := by
  obtain ⟨before, after, change, rows, rest, rfl, hnext⟩ := h
  obtain ⟨between, after', rfl, hnone, -⟩ := exists_of_part_eq_cons hnext
  obtain ⟨s', h⟩ := setsLast_of_cut rfl hrename hset hfollows hfound
  exact h.roleSet_of_overtaken hkind hnone

/-- **An overtaken renaming undoes the setting.** -/
theorem roleSet_of_renameOvertaken (hkind : renamed.isPrivileged ≠ current.isPrivileged)
    (h : RenameOvertaken role t) : w'.store.roleSet d.catalog role =
      some (current.effective (w.store.grantsOfRole role) d.catalog) := by
  obtain ⟨before, after, rows, change, rfl, hwrite, hno⟩ := h
  obtain ⟨left, right, hsplit⟩ := List.append_of_mem hwrite
  obtain ⟨between, after', rfl, rfl, -⟩ := exists_of_part_eq hsplit
  obtain ⟨s', h⟩ := renamesLast_of_cut rfl hrename hset hfollows hfound
  refine h.roleSet_of_overtaken hkind fun e he => hno e ?_
  rw [part_append]
  exact List.mem_append_left _ he

/-- **If neither is overtaken, or the kind stays, the role holds what was set.** -/
theorem roleSet_of_not_overtaken
    (h : renamed.isPrivileged ≠ current.isPrivileged →
      ¬SetOvertaken role t ∧ ¬RenameOvertaken role t) :
    w'.store.roleSet d.catalog role = some (.ofList granted) := by
  obtain ⟨before, between, after, change, rows, rfl | rfl⟩ := exists_cut hrename hset
  · obtain ⟨s', hlast⟩ := renamesLast_of_cut rfl hrename hset hfollows hfound
    by_cases hkind : renamed.isPrivileged = current.isPrivileged
    · exact hlast.roleSet_of_kept hkind
    · by_cases hread : ∃ e ∈ part .first between, e.request = Backend.Request.roleGrants role
      · obtain ⟨e, he, hread⟩ := hread
        exact hlast.roleSet_of_read hkind he hread
      · refine absurd ?_ (h hkind).2
        exact renameOvertaken_of_cut hrename fun e he heq => hread ⟨e, he, heq⟩
  · obtain ⟨s', hlast⟩ := setsLast_of_cut rfl hrename hset hfollows hfound
    by_cases hkind : renamed.isPrivileged = current.isPrivileged
    · exact hlast.roleSet_of_kept hkind
    · refine hlast.roleSet_of_found fun hnone => (h hkind).1 ?_
      exact ⟨before, _, change, rows, part .second after, rfl, by simp [hnone]⟩

/-- **A renaming and a setting of permissions that both succeed leave the role with what was
set**, in whatever order their requests are answered, exactly unless the renaming changes the
kind of the role and one of the two was overtaken by the other, to another effect than that of
the setting. -/
theorem holds_what_was_set_iff_not_overtaken :
    w'.store.roleSet d.catalog role = some (.ofList granted) ↔
    ¬(renamed.isPrivileged ≠ current.isPrivileged ∧
      (SetOvertaken role t ∧ d.catalog.mistaken renamed.isPrivileged ≠ .ofList granted ∨
        RenameOvertaken role t ∧
          current.effective (w.store.grantsOfRole role) d.catalog ≠ .ofList granted)) := by
  constructor
  · rintro hheld ⟨hkind, ⟨hover, hne⟩ | ⟨hover, hne⟩⟩
    · have hmistaken := roleSet_of_setOvertaken hfound hrename hset hfollows hkind hover
      exact hne (Option.some.inj (hmistaken.symm.trans hheld))
    · have hundone := roleSet_of_renameOvertaken hfound hrename hset hfollows hkind hover
      exact hne (Option.some.inj (hundone.symm.trans hheld))
  · intro hnot
    by_cases hover : renamed.isPrivileged ≠ current.isPrivileged ∧
        (SetOvertaken role t ∨ RenameOvertaken role t)
    · obtain ⟨hkind, hover | hover⟩ := hover
      · rw [roleSet_of_setOvertaken hfound hrename hset hfollows hkind hover]
        exact congrArg some (Decidable.byContradiction fun hne =>
          hnot ⟨hkind, .inl ⟨hover, hne⟩⟩)
      · rw [roleSet_of_renameOvertaken hfound hrename hset hfollows hkind hover]
        exact congrArg some (Decidable.byContradiction fun hne =>
          hnot ⟨hkind, .inr ⟨hover, hne⟩⟩)
    · refine roleSet_of_not_overtaken hfound hrename hset hfollows fun hkind => ?_
      exact not_or.mp fun h => hover ⟨hkind, h⟩

end Values

/-! ## One role among one permission -/

/-- A role that is not privileged and holds nothing. -/
def idleStaff : World := oneRole ⟨⟨1⟩, "Staff", "Staff", false⟩ []

/-- Permissions of the role are set, and between the finding of the role and the write the
renaming writes, which has made some requests before.  Both look into the cache while it is
empty. -/
def renameBeforeSetWrites (earlier : Nat) (name : String) (granted : List String) :
    List (Caller × Exchange Backend) × Program Backend (Except Failure Role) ×
      Program Backend (Except Failure Unit) × World :=
  weave (.second :: (List.replicate earlier .first ++ List.replicate 5 .second) ++
      [.first, .first, .second, .second])
    (renameRole deployment ⟨1⟩ ⟨1⟩ name "Role").run
    (setRolePermissions deployment ⟨1⟩ ⟨1⟩ granted).run idleStaff

/-- A renaming that keeps the kind of the role does no harm to a setting that it overtakes. -/
theorem holds_what_was_set_after_overtaking :
    (renameBeforeSetWrites 6 "Team" [Permission.editRoles]).2.2.2.store.roleSet editing ⟨1⟩ =
      some (.ofList [Permission.editRoles]) := by
  have hrename : (renameBeforeSetWrites 6 "Team" [Permission.editRoles]).2.1 =
      .done (.ok ⟨⟨1⟩, "Team", "Role", false⟩) := rfl
  have hset : (renameBeforeSetWrites 6 "Team" [Permission.editRoles]).2.2.1 = .done (.ok ()) := rfl
  have hfound : idleStaff.store.findRole ⟨1⟩ = some ⟨⟨1⟩, "Staff", "Staff", false⟩ := rfl
  have hfollows : (unreliable fun _ => false).Follows idleStaff
      (both (renameBeforeSetWrites 6 "Team" [Permission.editRoles]).1)
      (renameBeforeSetWrites 6 "Team" [Permission.editRoles]).2.2.2 := follows_weave _ _ _ _
  exact (holds_what_was_set_iff_not_overtaken hfound (transcript_first_of_done hrename)
    (transcript_second_of_done hset) hfollows).mpr fun h => h.1 rfl

/-- **A setting that is overtaken by a renaming to `Admin` gives away everything**: nothing is
to be held, and the whole catalog is held. -/
theorem holds_everything_after_overtaking :
    ∃ t w', (renameRole deployment ⟨1⟩ ⟨1⟩ "Admin" "Role").run.Transcript (part .first t)
        (.ok ⟨⟨1⟩, "Admin", "Role", true⟩) ∧
      (setRolePermissions deployment ⟨1⟩ ⟨1⟩ []).run.Transcript (part .second t) (.ok ()) ∧
      (unreliable fun _ => false).Follows idleStaff (both t) w' ∧
      w'.store.roleSet editing ⟨1⟩ = some editing.names ∧ editing.names ≠ .ofList [] := by
  have hrename : (renameBeforeSetWrites 9 "Admin" []).2.1 =
      .done (.ok ⟨⟨1⟩, "Admin", "Role", true⟩) := rfl
  have hset : (renameBeforeSetWrites 9 "Admin" []).2.2.1 = .done (.ok ()) := rfl
  have hheld : (renameBeforeSetWrites 9 "Admin" []).2.2.2.store.roleSet editing ⟨1⟩ =
      some editing.names := rfl
  exact ⟨_, _, transcript_first_of_done hrename, transcript_second_of_done hset,
    follows_weave _ _ _ _, hheld, by decide⟩

end AccessControl.Concurrency
