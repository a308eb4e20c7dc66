import AccessControl.Permission.Catalog
import AccessControl.Permission.Grant
import AccessControl.Role

/-! # Effective permissions

What the rows of a role and of a user come to.  A prohibition beats a grant of the
same permission, within the rows of one owner and of a user over the roles.
-/
namespace AccessControl

/-- The permissions that rows prohibit. -/
def prohibitedNames (rows : List Grant) : NameSet :=
  .ofList ((rows.filter (fun g => !g.isGranted)).map (·.permission))

/-- The permissions that rows give, whether prohibited by others or not. -/
def grantedNames (rows : List Grant) : NameSet :=
  .ofList ((rows.filter (·.isGranted)).map (·.permission))

theorem mem_map_permission_filter {rows : List Grant} {p : Grant → Bool} {isGranted : Bool}
    {name : String} (hp : ∀ row, p row = true ↔ row.isGranted = isGranted) :
    name ∈ (rows.filter p).map (·.permission) ↔ ⟨name, isGranted⟩ ∈ rows := by
  simp only [List.mem_map, List.mem_filter, hp]
  constructor
  · rintro ⟨row, ⟨hrow, rfl⟩, rfl⟩
    exact hrow
  · exact fun h => ⟨_, ⟨h, rfl⟩, rfl⟩

@[simp] theorem mem_prohibitedNames {rows : List Grant} {name : String} :
    name ∈ prohibitedNames rows ↔ ⟨name, false⟩ ∈ rows := by
  rw [prohibitedNames, SortedSet.mem_ofList]
  exact mem_map_permission_filter fun row => by rw [Bool.not_eq_true']

@[simp] theorem mem_grantedNames {rows : List Grant} {name : String} :
    name ∈ grantedNames rows ↔ ⟨name, true⟩ ∈ rows := by
  rw [grantedNames, SortedSet.mem_ofList]
  exact mem_map_permission_filter fun _ => .rfl

/-- The permissions of a role.  A privileged role holds the catalog without the
prohibited names, another role what is given to it; neither holds a name that is
not of the catalog. -/
def Role.effective (role : Role) (rows : List Grant) (catalog : Catalog) : NameSet :=
  let prohibited := prohibitedNames rows
  if role.isPrivileged then catalog.names.filter (fun name => !prohibited.contains name)
  else (grantedNames rows).filter
    (fun name => !prohibited.contains name && catalog.contains name)

theorem Role.mem_effective {role : Role} {rows : List Grant} {catalog : Catalog}
    {name : String} :
    name ∈ role.effective rows catalog ↔
      catalog.contains name = true ∧ ⟨name, false⟩ ∉ rows ∧
        (role.isPrivileged = true ∨ ⟨name, true⟩ ∈ rows) := by
  rw [Role.effective]
  split
  · rename_i h
    simp [h, SortedSet.contains, Catalog.names, Catalog.contains_iff]
  · rename_i h
    simp only [SortedSet.mem_filter, mem_grantedNames, Bool.and_eq_true, Bool.not_eq_true',
      SortedSet.contains, decide_eq_false_iff_not, mem_prohibitedNames, h]
    exact Iff.intro
      (fun held => ⟨held.2.2, held.2.1, .inr held.1⟩)
      (fun held => ⟨held.2.2.resolve_left (by decide), held.2.1, held.1⟩)

/-- The overrides of a user: what is given and what is prohibited. -/
structure Overrides where
  /-- The permissions given to the user alone. -/
  granted : NameSet
  /-- The permissions that the user has not, whatever the roles give. -/
  prohibited : NameSet
  deriving DecidableEq

namespace Overrides

/-- Takes out of what is given whatever is prohibited too. -/
def ofSets (granted prohibited : NameSet) : Overrides :=
  ⟨granted.filter (fun name => !prohibited.contains name), prohibited⟩

/-- Notes a row under what is given or under what is prohibited. -/
def note (o : Overrides) (row : Grant) : Overrides :=
  if row.isGranted then { o with granted := o.granted.insert row.permission }
  else { o with prohibited := o.prohibited.insert row.permission }

/-- The overrides that rows come to: every row is noted, and then whatever is prohibited is
taken out of what is given. -/
def ofRows (rows : List Grant) : Overrides :=
  let noted := rows.foldl note ⟨∅, ∅⟩
  { noted with granted := noted.granted.filter (fun name => !noted.prohibited.contains name) }

/-- Whether a user has a permission, given what each of the user's roles holds. -/
def decides (o : Overrides) (name : String) (roles : List NameSet) : Bool :=
  if o.prohibited.contains name then false
  else if o.granted.contains name then true
  else roles.any (fun role => role.contains name)

/-- The permissions of a user, given what each of the user's roles holds. -/
def effective (o : Overrides) (roles : List NameSet) : NameSet :=
  roles.foldl
    (fun held role => role.filter (fun name => !o.prohibited.contains name) ∪ held) o.granted

theorem mem_granted_ofSets {granted prohibited : NameSet} {name : String} :
    name ∈ (ofSets granted prohibited).granted ↔ name ∈ granted ∧ name ∉ prohibited := by
  simp [ofSets, SortedSet.contains]

theorem mem_foldl_note {rows : List Grant} {o : Overrides} {name : String} :
    (name ∈ (rows.foldl note o).granted ↔ name ∈ o.granted ∨ ⟨name, true⟩ ∈ rows) ∧
      (name ∈ (rows.foldl note o).prohibited ↔ name ∈ o.prohibited ∨ ⟨name, false⟩ ∈ rows) := by
  induction rows generalizing o with
  | nil => simp
  | cons row rows ih =>
    obtain ⟨permission, isGranted⟩ := row
    rw [List.foldl_cons, ih.1, ih.2]
    cases isGranted with
    | true => simp [note, or_assoc, or_left_comm]
    | false => simp [note, or_assoc, or_left_comm]

/-- What rows give to a user, and no row prohibits. -/
theorem mem_granted_ofRows {rows : List Grant} {name : String} :
    name ∈ (ofRows rows).granted ↔ ⟨name, true⟩ ∈ rows ∧ ⟨name, false⟩ ∉ rows := by
  rw [ofRows]
  simp [SortedSet.contains, mem_foldl_note]

theorem mem_prohibited_ofRows {rows : List Grant} {name : String} :
    name ∈ (ofRows rows).prohibited ↔ ⟨name, false⟩ ∈ rows := by
  rw [ofRows]
  simp [mem_foldl_note]

/-- **What a user has: what is given to the user, and what a role holds unless it is
prohibited for the user.** -/
theorem mem_effective {o : Overrides} {roles : List NameSet} {name : String} :
    name ∈ o.effective roles ↔
      name ∈ o.granted ∨ name ∉ o.prohibited ∧ ∃ role ∈ roles, name ∈ role := by
  rw [effective]
  generalize o.granted = held
  induction roles generalizing held with
  | nil => simp
  | cons role roles ih =>
    rw [List.foldl_cons, ih]
    simp only [SortedSet.mem_union, SortedSet.mem_filter, SortedSet.contains,
      Bool.not_eq_true', decide_eq_false_iff_not, List.mem_cons, exists_eq_or_imp]
    constructor
    · rintro ((⟨hrole, hno⟩ | hheld) | ⟨hno, hrest⟩)
      · exact .inr ⟨hno, .inl hrole⟩
      · exact .inl hheld
      · exact .inr ⟨hno, .inr hrest⟩
    · rintro (hheld | ⟨hno, hrole | hrest⟩)
      · exact .inl (.inr hheld)
      · exact .inl (.inl ⟨hrole, hno⟩)
      · exact .inr ⟨hno, hrest⟩

end Overrides
end AccessControl
