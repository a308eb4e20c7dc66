import AccessControl.Proofs.Administration.WellFormed
import AccessControl.Proofs.World.Operations

/-! # What the services reach

From a store as it was set up, and an empty cache, calls to the services follow one another, of
which each may succeed or fail; between them users are stored and the world drifts
(`Services.Reached`).  One step keeps three things, so whatever is reached has them: the store is a
later one than at the start (`Reached.proceeds`), every cached item is right for the store
(`Reached.coherent`), and the store is well formed if it was so at the start
(`Reached.wellFormed`).
-/
namespace AccessControl

/-! ## New users -/

namespace Store
variable {s s' : Store} {user : UserId} {name : String} {stamp : SecurityStamp}

/-- A new user gets a number that no user had. -/
theorem find?_of_createUser (hs : s.Sound) (h : s.createUser name stamp = .ok (user, s')) :
    s.users.find? user = none := by
  obtain ⟨⟨-, hnext⟩, -⟩ := createUser_ok h
  cases hfind : s.users.find? user with
  | none => rfl
  | some stored =>
    have hgiven := (hs.userNumbers user (Table.contains_of_find? hfind)).2
    exact absurd (lt_of_next hnext) (Int64.not_lt.mpr hgiven)

/-- **A new user changes nothing but the stamp of that user**, since whoever was not stored had
neither rows nor roles. -/
theorem sameIn_createUser (hs : s.Sound) (h : s.createUser name stamp = .ok (user, s'))
    {aspect : Aspect} (haspect : aspect ≠ .stamp user) : s.SameIn s' aspect := by
  have hnew := find?_of_createUser hs h
  obtain ⟨-, rfl⟩ := createUser_ok h
  cases aspect with
  | role role => rfl
  | roleGrants role => rfl
  | overrides other =>
    show grantsOfUser _ other = s.grantsOfUser other
    by_cases hother : other = user
    · rw [grantsOfUser, Table.find?_insert, if_pos hother, grantsOfUser, hother, hnew]
    · rw [grantsOfUser, Table.find?_insert, if_neg hother, grantsOfUser]
  | assignments other =>
    show rolesOfUser _ other = s.rolesOfUser other
    by_cases hother : other = user
    · rw [rolesOfUser, Table.find?_insert, if_pos hother, rolesOfUser, hother, hnew]
    · rw [rolesOfUser, Table.find?_insert, if_neg hother, rolesOfUser]
  | stamp other =>
    have hother : other ≠ user := fun heq => haspect (heq ▸ rfl)
    show stampOf _ other = s.stampOf other
    rw [stampOf, Table.find?_insert, if_neg hother, stampOf]

end Store

namespace World
variable {w : World} {catalog : Catalog}

/-- **A new user leaves every cached item right.** -/
theorem Coherent.createUser (hw : w.Coherent catalog) (hs : w.store.Sound) (name : String) :
    (World.createUser name w).2.Coherent catalog := by
  rcases createUser_cases name w with ⟨user, stamp, store, h, hcreated⟩ | ⟨failure, hfailed⟩
  · rw [hcreated]
    intro key value _ hheld
    have hagrees : w.store.Agrees catalog store key :=
      agrees_of_sameIn (fun aspect haspect => Store.sameIn_createUser hs h (haspect user)) key
    exact hagrees.valid (hw key value id hheld)
  · rw [hfailed]
    exact hw

theorem wellFormed_answer {r : Backend.Request} (hw : w.store.WellFormed catalog)
    (hfits : r.Fits catalog w.store) : (World.answer r w).2.store.WellFormed catalog := by
  rcases store_answer_cases r w with hsame | hwrote
  · rw [hsame]
    exact hw
  · exact hw.wrote hfits hwrote

theorem wellFormed_createUser (hw : w.store.WellFormed catalog) (name : String) :
    (World.createUser name w).2.store.WellFormed catalog :=
  store_createUser_of hw fun _ _ _ => hw.createUser

end World

namespace Services
open World Outside Program Administration Authorization

/-- Listing the rows of a role writes nothing, and caches what a decision caches. -/
theorem keepsOrder_listRoleGrants {d : Deployment} (actor : UserId) (role : RoleId) :
    KeepsOrder d.catalog (Administration.listRoleGrants d actor role) := by
  apply Preserves.bind (keepsOrder_requirePermission actor _)
  intro _
  apply Preserves.bind keepsOrder_existingRole
  intro _
  exact keepsOrder_of_asks (asks_backend (.roleGrants role) (quiet_of_not_writes rfl nofun))

/-! ## Calls -/

/-- A call to one of the services. -/
inductive Call where
  | administration (c : Administration.Call)
  | listRoleGrants (actor : UserId) (role : RoleId)
  | session (c : Session.Call)

namespace Call

/-- What a call results in if it succeeds. -/
def Result : Call → Type
  | .administration c => c.Result
  | .listRoleGrants _ _ => List Grant
  | .session c => c.Result

/-- The service that is called. -/
def service (d : Deployment) : (c : Call) → Service c.Result
  | .administration c => c.service d
  | .listRoleGrants actor role => Administration.listRoleGrants d actor role
  | .session c => c.service d

variable {d : Deployment} {mayFail : Backend.Request → Bool}

/-- **Every call keeps the cache right**, whether it succeeds or fails. -/
theorem keeps (hremove : RemovalsHold mayFail) (c : Call) :
    Keeps mayFail d.catalog (c.service d) := by
  cases c with
  | administration c => exact c.keeps hremove d
  | listRoleGrants actor role =>
    exact keeps_of_keepsOrder hremove (keepsOrder_listRoleGrants actor role)
  | session c => exact c.keeps

/-- **Every call keeps the store well formed**, whether it succeeds or fails. -/
theorem keepsForm (c : Call) : KeepsForm mayFail d.catalog (c.service d) := by
  cases c with
  | administration c => exact c.keepsForm
  | listRoleGrants actor role => exact keepsForm_of_asks asks_listRoleGrants
  | session c =>
    have hasks : (c.service d).run.Asks Backend.Request.LeavesDecisions :=
      c.asks_leavesDecisions
    exact keepsForm_of_asks (hasks.mono fun _ hr => alwaysFits_of_leavesDecisions hr)

end Call

/-! ## Worlds that are reached -/

/-- **The worlds that the services lead to**: calls one after the other, and at any time new users
and drifts. -/
inductive Reached (d : Deployment) (mayFail : Backend.Request → Bool) (start : World) :
    World → Prop where
  | start : Reached d mayFail start start
  /-- The cache loses or spoils values, and time passes. -/
  | drift {w w' : World} (h : Reached d mayFail start w) (hw : Drifts w w') :
    Reached d mayFail start w'
  /-- One more user is stored, or cannot be. -/
  | user {w : World} (h : Reached d mayFail start w) (name : String) :
    Reached d mayFail start (World.createUser name w).2
  /-- One more call has ended. -/
  | call {w w' : World} (h : Reached d mayFail start w) (c : Call) {t : List (Exchange Backend)}
    {r : Except Failure c.Result} (ht : (c.service d).run.Transcript t r)
    (hf : (unreliable mayFail).Follows w t w') : Reached d mayFail start w'

namespace Reached
variable {d : Deployment} {mayFail : Backend.Request → Bool} {start w : World}

/-- A call that is run without faults leads on. -/
theorem run (h : Reached d mayFail start w) (c : Call) :
    Reached d mayFail start (World.run (c.service d).run w).2 :=
  h.call c (transcript_exchanges _ w) (follows_exchanges _ w)

/-- **The parts of the store fit together as at the start, and the store is a later one.** -/
theorem proceeds (h : Reached d mayFail start w) : start.store.Proceeds w.store := by
  induction h with
  | start => exact .refl _
  | drift h hw ih => exact ih.trans (.of_eq hw.store)
  | user h name ih => exact ih.trans (proceeds_createUser name)
  | call h c ht hf ih => exact ih.trans (proceeds_of_follows hf)

/-- **Whatever is cached is right for what is stored**, if nothing was cached at the start. -/
theorem coherent (h : Reached d mayFail start w) (hremove : RemovalsHold mayFail)
    (hempty : start.cache.entries = ∅) (hsound : start.store.Sound) : w.Coherent d.catalog := by
  induction h with
  | start => exact coherent_of_empty hempty
  | drift h hw ih => exact ih.refills (.of_drifts hw)
  | user h name ih => exact ih.createUser (h.proceeds.sound hsound) name
  | call h c ht hf ih => exact c.keeps hremove _ ih _ _ _ ht hf

/-- **The store stays well formed.** -/
theorem wellFormed (h : Reached d mayFail start w) (hstart : start.store.WellFormed d.catalog) :
    w.store.WellFormed d.catalog := by
  induction h with
  | start => exact hstart
  | drift h hw ih =>
    rw [hw.store]
    exact ih
  | user h name ih => exact wellFormed_createUser ih name
  | call h c ht hf ih => exact c.keepsForm _ ih _ _ _ ht hf

end Reached

/-- **What administration stores is well formed.**  From the empty store, or from any other that is
well formed, no sequence of calls leads to a store that is not, whichever of them fail and whatever
else fails on the way: every row names a permission of the catalog, and nobody has two rows for the
same one; privileged roles have nothing but prohibitions, and other roles nothing but grants; the
kind of a role follows from its name, which is trimmed and not empty; and the roles of a user are
listed in ascending order and exist. -/
theorem stored_rows_are_well_formed {d : Deployment} {mayFail : Backend.Request → Bool}
    {start w : World}
    (hstart : start.store = Store.empty ∨ start.store.WellFormed d.catalog)
    (h : Reached d mayFail start w) : w.store.WellFormed d.catalog := by
  apply h.wellFormed
  rcases hstart with hempty | hform
  · rw [hempty]
    exact .empty d.catalog
  · exact hform

/-- A deployment whose catalog has the permissions to edit roles and users. -/
def editing : Deployment :=
  ⟨(Catalog.single ⟨⟨Permission.editRoles⟩, ⟨"Edit role"⟩, ⟨"Roles"⟩⟩).push
    ⟨⟨Permission.editUsers⟩, ⟨"Edit user"⟩, ⟨"Users"⟩⟩ rfl, 60, {}⟩

/-- A world that is set up with a user who has the privileged role. -/
def oneAdmin : World :=
  after [.createRole ⟨"Admin", "Admin", true, []⟩, .createUser "alice",
    .replaceUserRoles ⟨1⟩ [⟨1⟩]] (World.ofStore Store.empty)

theorem sound_oneAdmin : oneAdmin.store.Sound := (proceeds_after _).sound .empty

theorem wellFormed_oneAdmin : oneAdmin.store.WellFormed editing.catalog := by
  have hnamed : Role.NamedFor "Admin" true := by
    constructor <;> decide +kernel
  have hadmin := wellFormed_answer (r := .createRole ⟨"Admin", "Admin", true, []⟩)
    (w := World.ofStore Store.empty) (.empty editing.catalog)
    ⟨hnamed, .nil, List.forall_mem_nil _⟩
  have halice := wellFormed_createUser hadmin "alice"
  exact wellFormed_answer (r := .replaceUserRoles ⟨1⟩ [⟨1⟩]) halice (List.pairwise_singleton _ _)

/-- The role ceases to be privileged and keeps its permissions, so its rows are other ones. -/
def renamed : Except Failure Role × World :=
  World.run (renameRole editing ⟨1⟩ ⟨1⟩ " Staff " "Staff").run oneAdmin

/-- Rows are still well formed when the only role has been renamed. -/
theorem stored_rows_are_well_formed_after_renameRole :
    renamed.1 = .ok ⟨⟨1⟩, "Staff", "Staff", false⟩ ∧
      renamed.2.store.grantsOfRole ⟨1⟩ =
        [.granting Permission.editRoles, .granting Permission.editUsers] ∧
      renamed.2.store.WellFormed editing.catalog := by
  have hreached : Reached editing Backend.Request.mayBeLost oneAdmin renamed.2 :=
    Reached.start.run (.administration (.renameRole ⟨1⟩ ⟨1⟩ " Staff " "Staff"))
  refine ⟨by decide +kernel, by decide +kernel, ?_⟩
  exact stored_rows_are_well_formed (.inr wellFormed_oneAdmin) hreached

end Services
end AccessControl
