import AccessControl.Data.SortedSet
import AccessControl.Data.Table
import AccessControl.Permission.Definition
import AccessControl.Permission.Standard

/-! # The catalog of permissions

A catalog lists the permissions there are, in the order in which they were
registered, and keeps the place that each name has in that order.  It grows by one
permission after the other, in the list and in the index alike (`Catalog.indexed`), and no
name is registered twice (`Catalog.distinct`).  Grants may only name permissions of the
catalog.
-/
namespace AccessControl

/-- The permissions there are. -/
structure Catalog where
  /-- The permissions in the order of their registration. -/
  definitions : List PermissionDefinition
  /-- The place of each name in that order. -/
  index : Table String Nat
  /-- The index has every name at its place, and no other name. -/
  indexed : ∀ name place, index.find? name = some place ↔
    (definitions.map (·.name.text))[place]? = some name

namespace Catalog

/-- The catalog without permissions. -/
def empty : Catalog := ⟨[], ∅, fun name place => by simp⟩

instance : Inhabited Catalog := ⟨empty⟩

/-- The names in the order of their registration. -/
def nameList (c : Catalog) : List String := c.definitions.map (·.name.text)

/-- The permission with a name. -/
def get? (c : Catalog) (name : String) : Option PermissionDefinition :=
  (c.index.find? name).bind (c.definitions[·]?)

/-- Whether a name is that of a permission. -/
def contains (c : Catalog) (name : String) : Bool := c.index.contains name

theorem contains_iff {c : Catalog} {name : String} :
    c.contains name = true ↔ name ∈ c.nameList := by
  rw [contains, Table.contains, Option.isSome_iff_exists, List.mem_iff_getElem?]
  exact exists_congr fun place => c.indexed name place

/-- No two permissions have the same name. -/
theorem distinct (c : Catalog) : (c.definitions.map (·.name.text)).Nodup := by
  refine List.pairwise_iff_getElem.mpr fun i j hi hj hij hsame => ?_
  have hfirst := (c.indexed _ i).mpr (List.getElem?_eq_getElem hi)
  have hsecond := (c.indexed _ j).mpr (List.getElem?_eq_getElem hj)
  rw [hsame, hsecond] at hfirst
  exact Nat.ne_of_lt hij (Option.some.inj hfirst).symm

/-- A list and its places, with a new value at the end. -/
theorem getElem?_concat_eq_some_iff {names : List String} {new name : String} {place : Nat}
    (h : new ∉ names) : (names ++ [new])[place]? = some name ↔
      if name = new then place = names.length else names[place]? = some name := by
  rcases Nat.lt_trichotomy place names.length with hlt | rfl | hgt
  · rw [List.getElem?_append_left hlt]
    split
    · rename_i hname
      subst hname
      exact iff_of_false (fun hat => h (List.mem_of_getElem? hat)) (Nat.ne_of_lt hlt)
    · exact Iff.rfl
  · rw [List.getElem?_concat_length, List.getElem?_eq_none (Nat.le_refl _)]
    split
    · rename_i hname
      exact iff_of_true (congrArg some hname.symm) rfl
    · rename_i hname
      exact iff_of_false (fun hat => hname (Option.some.inj hat).symm) (fun hat => nomatch hat)
  · rw [List.getElem?_eq_none (by rwa [List.length_append, List.length_singleton]),
      List.getElem?_eq_none (Nat.le_of_lt hgt)]
    split
    · exact iff_of_false (fun hat => nomatch hat) (Nat.ne_of_gt hgt)
    · exact Iff.rfl

/-- The catalog with one more permission, at the end. -/
def push (c : Catalog) (d : PermissionDefinition) (h : c.contains d.name.text = false) :
    Catalog where
  definitions := c.definitions ++ [d]
  index := c.index.insert d.name.text c.definitions.length
  indexed name place := by
    have hnew : d.name.text ∉ c.definitions.map (·.name.text) :=
      fun hmem => Bool.false_ne_true (h.symm.trans (contains_iff.mpr hmem))
    rw [Table.find?_insert, List.map_append, List.map_singleton, getElem?_concat_eq_some_iff hnew,
      List.length_map]
    split
    · rw [Option.some.injEq]
      exact eq_comm
    · exact c.indexed name place

/-- The catalog with nothing but one permission. -/
def single (d : PermissionDefinition) : Catalog := empty.push d rfl

/-- Registers one more permission. -/
def register (c : Catalog) (d : PermissionDefinition) : Except Failure Catalog :=
  if h : c.contains d.name.text = true then
    .error (.validation ("duplicate permission '" ++ d.name.text ++ "' in catalog"))
  else .ok (c.push d (Bool.not_eq_true _ ▸ h))

/-- Registers permissions one after the other. -/
def ofList (definitions : List PermissionDefinition) : Except Failure Catalog :=
  definitions.foldlM register empty

/-- Checks definitions given as name, label and group, and registers them. -/
def ofRows (rows : List (String × String × String)) : Except Failure Catalog := do
  let definitions ← rows.mapM fun (name, displayName, group) =>
    PermissionDefinition.new name displayName group
  ofList definitions

/-- The catalog of the service. -/
def standard : Except Failure Catalog := ofRows Permission.standard

/-- The names as a set. -/
def names (c : Catalog) : NameSet := .ofList c.nameList

/-- The groups with one more permission: it joins the group of its label at the end, or
begins a group at the place of the label. -/
def joinGroup (d : PermissionDefinition) :
    List (String × List PermissionDefinition) → List (String × List PermissionDefinition)
  | [] => [(d.group.text, [d])]
  | (label, members) :: rest =>
    if d.group.text < label then (d.group.text, [d]) :: (label, members) :: rest
    else if label < d.group.text then (label, members) :: joinGroup d rest
    else (label, members ++ [d]) :: rest

/-- The permissions by group; the groups are in order of their labels and each keeps
the order of registration. -/
def groups (c : Catalog) : List (String × List PermissionDefinition) :=
  c.definitions.foldl (fun groups d => joinGroup d groups) []

/-- The number of permissions. -/
def size (c : Catalog) : Nat := c.definitions.length

/-- Fails if some names are unknown, and then lists each of them once, in order. -/
def ensureKnown (c : Catalog) (names : List String) : Except Failure Unit :=
  let unknown : NameSet := .ofList (names.filter (fun name => !c.contains name))
  if unknown.isEmpty then .ok ()
  else .error (.validation ("unknown permission(s): " ++ ", ".intercalate unknown.toList))

end Catalog
end AccessControl
