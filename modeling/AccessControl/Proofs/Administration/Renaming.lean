import AccessControl.Proofs.Administration.Coherence
import AccessControl.Proofs.Authorization.Meaning
import AccessControl.Proofs.Concurrency.RenameAndResolve

/-! # A renaming keeps what is held

A renaming that succeeds writes the role once.  If the role changes its kind, the write brings
rows for the new kind that come to what the old rows came to for the old kind; else the rows stay.
So the stores before and after agree on all that is ever computed from them
(`agrees_of_renameRole`), and every resolution and every decision ends as before.  A renaming that
fails has written nothing: all that can fail after the write is what would undo nothing.
-/
namespace AccessControl

namespace Role

/-- A new role has the trimmed name, and the kind that the name says. -/
theorem new_ok {id : RoleId} {name displayName : String} {role : Role}
    (h : Role.new id name displayName = .ok role) :
    role.name = trim name ∧ role.isPrivileged = isPrivilegedName name := by
  obtain ⟨given, hgiven, h⟩ := Except.bind_eq_ok_iff.mp h
  obtain ⟨label, -, h⟩ := Except.bind_eq_ok_iff.mp h
  obtain rfl := Except.ok.inj h
  rw [NonBlank.ofText] at hgiven
  split at hgiven
  · cases hgiven
  · obtain rfl := Except.ok.inj hgiven
    exact ⟨rfl, rfl⟩

end Role

namespace Store
variable {s s' : Store} {catalog : Catalog}

/-- Stores that agree on every item give every user the same permissions. -/
theorem permissions_of_agrees (h : ∀ key, s.Agrees catalog s' key) (user : UserId) :
    s'.permissions catalog user = s.permissions catalog user :=
  permissions_of_agreesFor fun key _ => h key

end Store

namespace Administration
open World Outside Program Authorization
variable {d : Deployment} {actor : UserId} {role : RoleId} {name displayName : String}
  {renamed : Role} {mayFail : Backend.Request → Bool} {w w' : World} {t : List (Exchange Backend)}

/-! ## A renaming that succeeds -/

/-- The role that a renaming writes was checked as a new one is. -/
theorem new_of_renameRole_ok
    (h : (renameRole d actor role name displayName).run.Transcript t (.ok renamed)) :
    Role.new role name displayName = .ok renamed := by
  rw [renameRole_eq] at h
  obtain ⟨_, _, _, -, -, h₁⟩ := transcript_run_bind_ok_iff.mp h
  obtain ⟨_, _, _, -, -, h₂⟩ := transcript_run_bind_ok_iff.mp h₁
  obtain ⟨_, _, _, -, hnew, h₃⟩ := transcript_run_bind_ok_iff.mp h₂
  obtain ⟨_, _, _, -, -, h₄⟩ := transcript_run_bind_ok_iff.mp h₃
  obtain ⟨-, hchecked⟩ := transcript_run_check_iff.mp hnew
  obtain ⟨rfl, -⟩ := transcript_writeRenamed_ok h₄
  exact hchecked.symm

/-- **A renaming that succeeds is one write**, of rows that were read from the store it finds. -/
theorem write_of_renameRole_ok
    (ht : (renameRole d actor role name displayName).run.Transcript t (.ok renamed))
    (hf : (unreliable mayFail).Follows w t w') :
    ∃ current grants?, Concurrency.Keeps d.catalog role current renamed w.store w'.store ∧
      w.store.updateRole role (changeTo renamed grants?) = .ok w'.store := by
  obtain ⟨reads, current, grants?, removed, hreads, rfl⟩ := transcript_renameRole_ok ht
  obtain ⟨v, hreading, hrest⟩ := follows_append_iff.mp hf
  obtain ⟨v', hwrite, hrest⟩ := follows_cons_iff.mp hrest
  obtain ⟨v'', hremove, hend⟩ := follows_cons_iff.mp hrest
  obtain rfl := follows_nil_iff.mp hend
  obtain ⟨hstore, hread⟩ := follows_reading hreading hreads.writes
  have hdone := updateRole_of_answers hwrite
  rw [hstore, ← store_of_answers (r := .cacheDelete _) rfl hremove] at hdone
  exact ⟨current, grants?, Concurrency.keeps_of_write hreads hread hdone, hdone⟩

/-- **Before and after a renaming the same is computed for every item.** -/
theorem agrees_of_renameRole
    (ht : (renameRole d actor role name displayName).run.Transcript t (.ok renamed))
    (hf : (unreliable mayFail).Follows w t w') (key : CacheKey) :
    w.store.Agrees d.catalog w'.store key := by
  obtain ⟨current, grants?, hkeeps, hwrite⟩ := write_of_renameRole_ok ht hf
  by_cases hkey : key = .rolePermissions role
  · subst hkey
    obtain ⟨record, hrecord, -⟩ := hkeeps.kind
    have hafter := hkeeps.effective_after hrecord
    show w'.store.roleSet d.catalog role = w.store.roleSet d.catalog role
    rw [Store.roleSet, Store.roleSet, hrecord, hkeeps.found, Option.map_some, Option.map_some,
      hafter]
  · exact (Store.sameData_updateRole hwrite key hkey).agrees

/-- **Two worlds, of which the second is the first with a role renamed**: every resolution of the
role and every decision about a user ends in both as it does in the other, and the role has the
new name and the kind that it says. -/
structure KeptAs (d : Deployment) (role : RoleId) (name : String) (w w' : World) : Prop where
  resolved : ∃ held : NameSet,
    lossy.Yields (resolveRole d role).run w (fun r _ => r = .ok held) ∧
    lossy.Yields (resolveRole d role).run w' (fun r _ => r = .ok held)
  decided : ∀ user permission, ∃ granted : Bool,
    lossy.Yields (isGranted d user permission).run w (fun r _ => r = .ok granted) ∧
    lossy.Yields (isGranted d user permission).run w' (fun r _ => r = .ok granted)
  stored : ∃ record, w'.store.findRole role = some record ∧
    record.name = trim name ∧ record.isPrivileged = Role.isPrivilegedName name

theorem keptAs_of_renameRole (hw : w.Coherent d.catalog)
    (ht : (renameRole d actor role name displayName).run.Transcript t (.ok renamed))
    (hf : lossy.Follows w t w') : KeptAs d role name w w' := by
  obtain ⟨current, grants?, hkeeps, hwrite⟩ := write_of_renameRole_ok ht hf
  have hagrees := agrees_of_renameRole ht hf
  have hw' : w'.Coherent d.catalog :=
    keeps_of_keepsOrder (fun _ => rfl) (keepsOrder_renameRole actor name displayName) w hw _ _ _ ht
      hf
  constructor
  case resolved =>
    have hset : w.store.roleSet d.catalog role =
        some (current.effective (w.store.grantsOfRole role) d.catalog) := by
      rw [Store.roleSet, hkeeps.found, Option.map_some]
    have hset' := (hagrees (.rolePermissions role) : w'.store.roleSet d.catalog role = _).trans hset
    refine ⟨current.effective (w.store.grantsOfRole role) d.catalog,
      yields_of_ensures (ensures_resolveRole_eq.mono fun r _ hr => ?_),
      yields_of_ensures (ensures_resolveRole_eq.mono fun r _ hr => ?_)⟩
    · rw [hr, hset]
    · rw [hr, hset']
  case decided =>
    intro user permission
    refine ⟨(w.store.permissions d.catalog user).contains permission,
      yields_of_ensures ((ensures_isGranted hw permission).mono fun r _ hr => hr.1),
      yields_of_ensures ((ensures_isGranted hw' permission).mono fun r _ hr => ?_)⟩
    rw [hr.1, Store.permissions_of_agrees hagrees]
  case stored =>
    obtain ⟨hname, hkind⟩ := Role.new_ok (new_of_renameRole_ok ht)
    exact ⟨_, Store.findRole_updateRole hwrite hkeeps.found, hname, hkind⟩

/-! ## A renaming that fails -/

/-- If a service fails, the store is as it was. -/
abbrev FailsClean (s : Store) {α : Type} (r : Except Failure α) (w : World) : Prop :=
  ∀ failure, r = .error failure → w.store = s

theorem ensures_store_of_asks {α : Type} {p : Program Backend α} {s : Store}
    (hp : p.Asks fun r : Backend.Request => r.writes = false) (hw : w.store = s) :
    (unreliable mayFail).Ensures p w fun _ w' => w'.store = s :=
  ensures_of_asks hp (fun _ _ _ _ hr ha hv => (store_of_answers hr ha).trans hv) hw

/-- What only reads may come before anything that fails clean. -/
theorem failsClean_bind {α β : Type} {x : Service α} {f : α → Service β} {s : Store}
    (hx : x.run.Asks fun r : Backend.Request => r.writes = false) (hw : w.store = s)
    (hf : ∀ a v, v.store = s → (unreliable mayFail).Ensures (f a).run v (FailsClean s)) :
    (unreliable mayFail).Ensures (x >>= f).run w (FailsClean s) := by
  rw [ensures_run_bind]
  refine (ensures_store_of_asks hx hw).mono fun r v hv => ?_
  cases r with
  | ok a => exact hf a v hv
  | error failure => exact fun _ _ => hv

theorem asks_rowsAfter (current renamed : Role) :
    (rowsAfter d role current renamed).run.Asks fun r : Backend.Request => r.writes = false := by
  unfold rowsAfter
  split
  · have hresolves : Resolves d role (resolveRole d role).run := resolves_resolveRole role
    exact Asks.run_bind hresolves.asks fun _ => asks_run_pure _
  · exact asks_run_pure none

theorem asks_existingRole :
    (existingRole role).run.Asks fun r : Backend.Request => r.writes = false := by
  refine Asks.run_bind (asks_backend (.findRole role) rfl) fun found => ?_
  cases found with
  | none => exact asks_run_throw _
  | some record => exact asks_run_pure record

theorem asks_removeRole :
    (Cached.remove (.rolePermissions role)).Asks fun r : Backend.Request => r.writes = false := by
  have hdelete : (Backend.request (.cacheDelete (CacheKey.rolePermissions role).text)).Asks
      fun r : Backend.Request => r.writes = false := asks_backend _ rfl
  exact hdelete.bind fun _ => asks_done _

/-- A write of a role that is said to have failed was not done. -/
theorem store_of_updateRole_error {change : RoleChange}
    {a : Backend.Answer (.updateRole role change)} {failure : Failure}
    (h : (unreliable mayFail).Answers (.updateRole role change) w a w')
    (herror : a = .error failure) : w'.store = w.store := by
  obtain ⟨v, hv, ha⟩ := h
  have hserved : ∀ answer v', answer = (World.answer (.updateRole role change) v).1 →
      v' = (World.answer (.updateRole role change) v).2 → answer = .error failure →
      v'.store = v.store := by
    rintro _ _ rfl rfl
    exact write_cases (Q := fun answer v' => answer = .error failure → v'.store = v.store)
      (fun _ _ h => nomatch h) fun _ _ _ => rfl
  cases ha with
  | served => exact (hserved _ _ rfl rfl herror).trans hv.store
  | refused _ _ => exact hv.store
  | unconfirmed hcaching _ => exact Bool.noConfusion hcaching

theorem ensures_writeRenamed_failsClean (renamed : Role) (grants? : Option (List Grant)) :
    (unreliable mayFail).Ensures (writeRenamed role renamed grants?).run w
      (FailsClean w.store) := by
  rw [writeRenamed, ensures_run_bind, ensures_run_outcome]
  refine (ensures_request (I := Backend) (r := .updateRole role _)).mpr fun written v ha => ?_
  dsimp only
  rw [ensures_run_bind, ensures_run_lift]
  refine (ensures_store_of_asks asks_removeRole rfl).mono fun _ v' hv' => ?_
  dsimp only
  rw [ensures_run_bind, ensures_run_conclude]
  -- A failure after the write is the failure of the write.
  cases written with
  | ok _ =>
    refine ensures_run_pure.mpr fun failure hok => ?_
    cases hok
  | error failure => exact fun _ _ => hv'.trans (store_of_updateRole_error ha rfl)

/-- **A renaming that fails leaves everything stored as it was**, whichever requests fail. -/
theorem ensures_renameRole_failsClean :
    (unreliable mayFail).Ensures (renameRole d actor role name displayName).run w
      (FailsClean w.store) := by
  rw [renameRole_eq]
  refine failsClean_bind (fun _ _ ht => writes_eq_false_of_requirePermission ht) rfl
    fun _ v hv => ?_
  refine failsClean_bind asks_existingRole hv fun current v hv => ?_
  refine failsClean_bind (asks_run_check _) hv fun renamed v hv => ?_
  refine failsClean_bind (asks_rowsAfter current renamed) hv fun grants? v hv => ?_
  exact hv ▸ ensures_writeRenamed_failsClean renamed grants?

/-- **A renaming keeps what is held.**  If the cache is right before it, a renaming that succeeds
changes no resolution of the role and no decision, whichever rows the role has and whether or not
it changes its kind.  A renaming that fails changes nothing stored, even if any request may
fail. -/
theorem renaming_keeps_what_is_held (hw : w.Coherent d.catalog) :
    lossy.Yields (renameRole d actor role name displayName).run w
      (fun r w' => ∀ renamed, r = .ok renamed → KeptAs d role name w w') ∧
    ∀ mayFail, (unreliable mayFail).Yields (renameRole d actor role name displayName).run w
      (FailsClean w.store) := by
  constructor
  · refine yields_of_ensures fun t r w' ht hf => ?_
    rintro renamed rfl
    exact keptAs_of_renameRole hw ht hf
  · exact fun _ => yields_of_ensures ensures_renameRole_failsClean

/-- A privileged role that has contradictory rows, and a row for a permission that is not there. -/
def muddledAdmin : World :=
  Concurrency.oneRole ⟨⟨1⟩, "Admin", "Admin", true⟩
    [.granting Permission.editRoles, .prohibiting Permission.editRoles, .granting "no permission"]

/-- The role becomes one that is not privileged. -/
def muddledStaff : Except Failure Role × World :=
  World.run (renameRole Concurrency.deployment ⟨1⟩ ⟨1⟩ " Staff " "Staff").run muddledAdmin

theorem renaming_keeps_what_is_held_across_kinds :
    muddledAdmin.Coherent Concurrency.deployment.catalog ∧
      muddledStaff.1 = .ok ⟨⟨1⟩, "Staff", "Staff", false⟩ ∧
      KeptAs Concurrency.deployment ⟨1⟩ " Staff " muddledAdmin muddledStaff.2 := by
  have hcoherent : muddledAdmin.Coherent Concurrency.deployment.catalog := coherent_of_empty rfl
  have hrenamed : muddledStaff.1 = .ok ⟨⟨1⟩, "Staff", "Staff", false⟩ := rfl
  refine ⟨hcoherent, hrenamed, ?_⟩
  exact (renaming_keeps_what_is_held hcoherent).1.1 _ _ _ (transcript_exchanges _ _)
    (follows_exchanges _ _) _ hrenamed

end Administration
end AccessControl
