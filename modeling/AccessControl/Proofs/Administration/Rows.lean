import AccessControl.Administration.Roles
import AccessControl.Proofs.Authorization.Stored
import AccessControl.Proofs.Permission.Catalog
import AccessControl.Proofs.Store.Writes

/-! # What rows make a role hold

The rows that are written for a list of permissions are made for a role of one kind, privileged
or not.  A role of that kind holds exactly the list with them; a role of the other kind holds
everything or nothing, whatever the list was (`Role.effective_rowsHolding_of_ne`).
-/
namespace AccessControl

/-- What a role holds by rows that were made for a role of the other kind: the whole catalog if
it is privileged, and nothing else. -/
def Catalog.mistaken (catalog : Catalog) (isPrivileged : Bool) : NameSet :=
  if isPrivileged then catalog.names else ∅

namespace Role
open Administration
variable {record : Role} {catalog : Catalog} {names : NameSet} {rows : List Grant}

/-- Whatever a role holds is of the catalog. -/
theorem contains_of_mem_effective {name : String} (h : name ∈ record.effective rows catalog) :
    catalog.contains name = true := (mem_effective.mp h).1

/-- What rows make a role hold depends on the kind of the role alone. -/
theorem effective_congr {record' : Role} (h : record'.isPrivileged = record.isPrivileged) :
    record'.effective rows catalog = record.effective rows catalog := by
  rw [effective, effective, h]

/-- **A role holds the names that rows of its kind were made for.** -/
theorem effective_rowsHolding (hnames : ∀ name ∈ names, catalog.contains name = true) :
    record.effective (rowsHolding catalog record.isPrivileged names) catalog = names := by
  apply SortedSet.ext
  intro name
  rw [mem_effective, rowsHolding]
  cases record.isPrivileged with
  | true =>
    -- A privileged role holds what is not prohibited, and prohibited is all but the names.
    have hprohibited : (⟨name, false⟩ : Grant) ∈ (catalog.nameList.filter fun name =>
        !names.contains name).map Grant.prohibiting ↔
        catalog.contains name = true ∧ name ∉ names := by
      simp [Grant.prohibiting, Catalog.contains_iff, SortedSet.contains]
    rw [if_pos rfl, hprohibited]
    constructor
    · rintro ⟨hknown, hallowed, -⟩
      refine Decidable.byContradiction fun hname => ?_
      exact hallowed ⟨hknown, hname⟩
    · exact fun hname => ⟨hnames name hname, fun h => h.2 hname, .inl rfl⟩
  | false =>
    have hgranted : ∀ flag, (⟨name, flag⟩ : Grant) ∈ names.toList.map Grant.granting ↔
        flag = true ∧ name ∈ names := by
      intro flag
      simp only [List.mem_map, Grant.granting, Grant.mk.injEq, SortedSet.mem_def]
      constructor
      · rintro ⟨_, hmem, rfl, rfl⟩
        exact ⟨rfl, hmem⟩
      · rintro ⟨rfl, hmem⟩
        exact ⟨name, hmem, rfl, rfl⟩
    rw [if_neg Bool.false_ne_true, hgranted, hgranted]
    constructor
    · rintro ⟨-, -, hflag | hname⟩
      · exact Bool.noConfusion hflag
      · exact hname.2
    · exact fun hname => ⟨hnames name hname, fun h => Bool.noConfusion h.1, .inr ⟨rfl, hname⟩⟩

/-- **Rows that were made for the other kind of role give everything or nothing.** -/
theorem effective_rowsHolding_of_ne {isPrivileged : Bool} (h : record.isPrivileged ≠ isPrivileged) :
    record.effective (rowsHolding catalog isPrivileged names) catalog =
      catalog.mistaken record.isPrivileged := by
  apply SortedSet.ext
  intro name
  rw [mem_effective, rowsHolding, Catalog.mistaken]
  cases hprivileged : record.isPrivileged with
  | true =>
    obtain rfl : isPrivileged = false := by simpa [hprivileged] using h.symm
    simp [Grant.granting, Catalog.names, Catalog.contains_iff]
  | false =>
    obtain rfl : isPrivileged = true := by simpa [hprivileged] using h.symm
    simp [Grant.prohibiting]

end Role
end AccessControl
