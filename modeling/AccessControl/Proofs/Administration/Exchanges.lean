import AccessControl.Proofs.Administration.Rename
import AccessControl.Proofs.Administration.Rows
import AccessControl.Proofs.Authorization.Exchanges

/-! # What editing a role exchanges

A renaming and a setting of permissions that succeed have each written once, and everything
before the write was read.  Between the write and what it was made from there are at most a
few exchanges, which are told here one by one; so it is known where another caller may come in
between.
-/
namespace AccessControl.Administration
open Program Authorization World

/-- The change with which a renaming writes. -/
def changeTo (renamed : Role) (grants? : Option (List Grant)) : RoleChange where
  name := renamed.name
  displayName := renamed.displayName
  isPrivileged := renamed.isPrivileged
  grants?

variable {d : Deployment} {actor : UserId} {role : RoleId} {t : List (Exchange Backend)}

theorem transcript_existingRole_ok {record : Role}
    (h : (existingRole role).run.Transcript t (.ok record)) :
    t = [⟨.findRole role, .ok (some record)⟩] := by
  obtain ⟨_, found, _, rfl, hfind, hfound⟩ := transcript_run_bind_ok_iff.mp h
  obtain rfl := transcript_request_iff.mp hfind
  cases found with
  | none => exact nomatch (transcript_run_throw_iff.mp hfound).2
  | some record =>
    obtain ⟨rfl, hrecord⟩ := transcript_run_pure_iff.mp hfound
    obtain rfl := Except.ok.inj hrecord
    rfl

theorem transcript_loadRole_ok {held : NameSet}
    (h : (loadRole d role).run.Transcript t (.ok (some held))) :
    ∃ record rows cached, held = record.effective rows d.catalog ∧
      t = [⟨.findRole role, .ok (some record)⟩, ⟨.roleGrants role, .ok rows⟩,
        ⟨cachingOf d role record rows, cached⟩] := by
  obtain ⟨_, found, _, rfl, hfind, hfound⟩ := transcript_run_bind_ok_iff.mp h
  obtain rfl := transcript_request_iff.mp hfind
  cases found with
  | none =>
    obtain ⟨_, _, _, _, -, hnone⟩ := transcript_run_bind_ok_iff.mp hfound
    exact nomatch (Except.ok.inj (transcript_run_pure_iff.mp hnone).2)
  | some record =>
    obtain ⟨_, rows, _, rfl, hread, hrows⟩ := transcript_run_bind_ok_iff.mp hfound
    obtain rfl := transcript_request_iff.mp hread
    obtain ⟨cached, rest, rfl, hrest⟩ := transcript_call_iff.mp hrows
    obtain ⟨rfl, hheld⟩ := transcript_done_iff.mp hrest
    obtain rfl := Option.some.inj (Except.ok.inj hheld)
    exact ⟨record, rows, cached, rfl, rfl⟩

/-- A resolution of a role that succeeds is one complete block. -/
theorem transcript_resolveRole_ok {held : NameSet}
    (h : (resolveRole d role).run.Transcript t (.ok held)) :
    ∃ record rows cached, held = record.effective rows d.catalog ∧
      t = [⟨.findRole role, .ok (some record)⟩, ⟨.roleGrants role, .ok rows⟩,
        ⟨cachingOf d role record rows, cached⟩] := by
  obtain ⟨_, held?, _, rfl, hload, hloaded⟩ := transcript_run_bind_ok_iff.mp h
  cases held? with
  | none => exact nomatch (transcript_run_throw_iff.mp hloaded).2
  | some held' =>
    obtain ⟨rfl, hheld⟩ := transcript_run_pure_iff.mp hloaded
    obtain rfl := Except.ok.inj hheld
    rw [List.append_nil]
    exact transcript_loadRole_ok hload

/-! ## Renaming -/

theorem transcript_writeRenamed_ok {renamed result : Role} {grants? : Option (List Grant)}
    (h : (writeRenamed role renamed grants?).run.Transcript t (.ok result)) :
    result = renamed ∧ ∃ removed, t = [⟨.updateRole role (changeTo renamed grants?), .ok ()⟩,
      ⟨.cacheDelete (CacheKey.rolePermissions role).text, removed⟩] := by
  obtain ⟨_, _, removed, _, rfl, hwrite, hrest⟩ := transcript_outcome_remove_ok h
  obtain rfl := transcript_request_iff.mp hwrite
  obtain ⟨rfl, hresult⟩ := transcript_run_pure_iff.mp hrest
  exact ⟨Except.ok.inj hresult, removed, rfl⟩

/-- What a renaming has read before it writes: the role; and if it changes its kind, the role
with its rows at the very end, from which the new rows are made. -/
structure RenameReads (d : Deployment) (role : RoleId) (current renamed : Role)
    (grants? : Option (List Grant)) (t : List (Exchange Backend)) : Prop where
  writes : ∀ e ∈ t, e.request.writes = false
  found : ⟨.findRole role, .ok (some current)⟩ ∈ t
  /-- A role that keeps its kind keeps its rows. -/
  kept : renamed.isPrivileged = current.isPrivileged → grants? = none
  /-- A role that changes its kind gets rows for what it was read to hold. -/
  flipped : renamed.isPrivileged ≠ current.isPrivileged → ∃ before record rows cached,
    t = before ++ [⟨.findRole role, .ok (some record)⟩, ⟨.roleGrants role, .ok rows⟩,
      ⟨cachingOf d role record rows, cached⟩] ∧
    grants? = some (rowsHolding d.catalog renamed.isPrivileged (record.effective rows d.catalog))

theorem transcript_rowsAfter_ok {current renamed : Role} {grants? : Option (List Grant)}
    (h : (rowsAfter d role current renamed).run.Transcript t (.ok grants?))
    {before : List (Exchange Backend)} (hbefore : ∀ e ∈ before, e.request.writes = false)
    (hfound : ⟨.findRole role, .ok (some current)⟩ ∈ before) :
    RenameReads d role current renamed grants? (before ++ t) := by
  rw [rowsAfter] at h
  split at h
  · rename_i hflip
    have hne : renamed.isPrivileged ≠ current.isPrivileged := by simpa using hflip
    obtain ⟨_, held, _, rfl, hresolve, hrows⟩ := transcript_run_bind_ok_iff.mp h
    have hresolving : Resolving d role _ := resolves_resolveRole role _ _ hresolve
    obtain ⟨record, rows, cached, rfl, rfl⟩ := transcript_resolveRole_ok hresolve
    obtain ⟨rfl, hgrants⟩ := transcript_run_pure_iff.mp hrows
    obtain rfl := Except.ok.inj hgrants
    refine ⟨?_, List.mem_append_left _ hfound, fun heq => absurd heq hne, fun _ =>
      ⟨before, record, rows, cached, by rw [List.append_nil], rfl⟩⟩
    intro e he
    rcases List.mem_append.mp he with he | he
    · exact hbefore e he
    · exact hresolving.writes_eq_false e (by rwa [List.append_nil] at he)
  · rename_i hkeep
    obtain ⟨rfl, hgrants⟩ := transcript_run_pure_iff.mp h
    rw [List.append_nil]
    exact ⟨hbefore, hfound, fun _ => Except.ok.inj hgrants,
      fun hne => absurd (by simpa using hkeep) hne⟩

/-- **A renaming that succeeds has written once**, after reading and before removing what is
cached. -/
theorem transcript_renameRole_ok {name displayName : String} {renamed : Role}
    (h : (renameRole d actor role name displayName).run.Transcript t (.ok renamed)) :
    ∃ reads current grants? removed, RenameReads d role current renamed grants? reads ∧
      t = reads ++ [⟨.updateRole role (changeTo renamed grants?), .ok ()⟩,
        ⟨.cacheDelete (CacheKey.rolePermissions role).text, removed⟩] := by
  rw [renameRole_eq] at h
  obtain ⟨required, _, _, rfl, hrequire, h₁⟩ := transcript_run_bind_ok_iff.mp h
  obtain ⟨_, current, _, rfl, hexists, h₂⟩ := transcript_run_bind_ok_iff.mp h₁
  obtain rfl := transcript_existingRole_ok hexists
  obtain ⟨_, renamed', _, rfl, hnew, h₃⟩ := transcript_run_bind_ok_iff.mp h₂
  obtain ⟨rfl, -⟩ := transcript_run_check_iff.mp hnew
  obtain ⟨rows, grants?, _, rfl, hrows, h₄⟩ := transcript_run_bind_ok_iff.mp h₃
  obtain ⟨rfl, removed, rfl⟩ := transcript_writeRenamed_ok h₄
  have hbefore : ∀ e ∈ required ++ [⟨.findRole role, .ok (some current)⟩],
      e.request.writes = false := by
    intro e he
    rcases List.mem_append.mp he with he | he
    · exact writes_eq_false_of_requirePermission hrequire e he
    · obtain rfl := List.mem_singleton.mp he
      rfl
  refine ⟨_, current, grants?, removed,
    transcript_rowsAfter_ok hrows hbefore (List.mem_append_right _ List.mem_cons_self), ?_⟩
  simp only [List.nil_append, List.append_assoc]

/-- **A renaming that succeeds has read all it needs when it writes**, and then only removes
what is cached. -/
theorem renameRole_cut {name displayName : String} {renamed : Role} {change : RoleChange}
    {before after : List (Exchange Backend)}
    (h : (renameRole d actor role name displayName).run.Transcript
      (before ++ ⟨.updateRole role change, .ok ()⟩ :: after) (.ok renamed)) :
    ∃ current grants? removed, change = changeTo renamed grants? ∧
      RenameReads d role current renamed grants? before ∧
      after = [⟨.cacheDelete (CacheKey.rolePermissions role).text, removed⟩] := by
  obtain ⟨reads, current, grants?, removed, hreads, heq⟩ := transcript_renameRole_ok h
  obtain ⟨rfl, hwrite, rfl⟩ := eq_of_append_cons_eq (P := fun e => e.request.writes = true) heq rfl
    (fun e he => by simp [hreads.writes e he]) (by simp [Backend.Request.writes])
  cases hwrite
  exact ⟨current, grants?, removed, rfl, hreads, rfl⟩

/-! ## Setting permissions -/

/-- **A setting of permissions that succeeds has written once**, with rows for the kind of the
role that was found just before. -/
theorem transcript_setRolePermissions_ok {granted : List String} {u : Unit}
    (h : (setRolePermissions d actor role granted).run.Transcript t (.ok u)) :
    (∀ name ∈ SortedSet.ofList granted, d.catalog.contains name = true) ∧
    ∃ reads record removed, (∀ e ∈ reads, e.request.writes = false) ∧
      t = (reads ++ [⟨.findRole role, .ok (some record)⟩]) ++ [⟨.replaceRoleGrants role
          (rowsHolding d.catalog record.isPrivileged (.ofList granted)), .ok ()⟩,
        ⟨.cacheDelete (CacheKey.rolePermissions role).text, removed⟩] := by
  obtain ⟨required, _, _, rfl, hrequire, h₁⟩ := transcript_run_bind_ok_iff.mp h
  obtain ⟨_, _, _, rfl, hcheck, h₂⟩ := transcript_run_bind_ok_iff.mp h₁
  obtain ⟨rfl, hknown⟩ := transcript_run_check_iff.mp hcheck
  obtain ⟨_, record, _, rfl, hexists, h₃⟩ := transcript_run_bind_ok_iff.mp h₂
  obtain rfl := transcript_existingRole_ok hexists
  obtain ⟨_, _, _, rfl, hreplace, h₄⟩ := transcript_run_bind_ok_iff.mp h₃
  obtain rfl := transcript_request_iff.mp hreplace
  obtain ⟨removed, rfl⟩ := transcript_remove h₄
  refine ⟨fun name hname => Catalog.contains_of_ensureKnown hknown.symm hname, required, record,
    removed, writes_eq_false_of_requirePermission hrequire, ?_⟩
  simp only [List.nil_append, List.append_assoc, List.cons_append]

/-- **A setting of permissions that succeeds has just found the role when it writes**, and then
only removes what is cached. -/
theorem setRolePermissions_cut {granted : List String} {u : Unit} {rows : List Grant}
    {before after : List (Exchange Backend)}
    (h : (setRolePermissions d actor role granted).run.Transcript
      (before ++ ⟨.replaceRoleGrants role rows, .ok ()⟩ :: after) (.ok u)) :
    ∃ reads record removed, rows = rowsHolding d.catalog record.isPrivileged (.ofList granted) ∧
      before = reads ++ [⟨.findRole role, .ok (some record)⟩] ∧
      (∀ e ∈ reads, e.request.writes = false) ∧
      after = [⟨.cacheDelete (CacheKey.rolePermissions role).text, removed⟩] := by
  obtain ⟨-, reads, record, removed, hreads, heq⟩ := transcript_setRolePermissions_ok h
  obtain ⟨rfl, hwrite, rfl⟩ := eq_of_append_cons_eq (P := fun e => e.request.writes = true) heq rfl
    (fun e he => by
      rcases List.mem_append.mp he with he | he
      · simp [hreads e he]
      · simp [List.mem_singleton.mp he, Backend.Request.writes])
    (by simp [Backend.Request.writes])
  cases hwrite
  exact ⟨reads, record, removed, rfl, rfl, hreads, rfl⟩

end AccessControl.Administration
