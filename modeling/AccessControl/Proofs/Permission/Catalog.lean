import AccessControl.Permission.Catalog

/-! # List and index of a catalog

A catalog is asked in two ways: by its list, from which the names and the groups are taken, and by
its index, where a single name is looked up.  Both tell the same (`Catalog.get?_eq_some_iff`).
Registering a list of permissions succeeds if no name comes twice, and then the catalog has just
that list (`Catalog.foldlM_register_ok`, `Catalog.exists_foldlM_register_iff`).

The groups are made by one permission after the other joining the group of its label.  What this
does is described twice: by what is found under a label, which gives the members of each group in
order (`Catalog.Grouped`), and by all members together, of which none gets lost or doubled
(`Catalog.flatMap_joinGroup`).
-/
namespace AccessControl.Catalog
variable {c c' : Catalog} {d : PermissionDefinition} {definitions more : List PermissionDefinition}
  {name label : String} {names : List String} {members : List PermissionDefinition}
  {groups : List (String × List PermissionDefinition)}

/-! ## Looking up -/

/-- **What is found under a name is the permission of the list with this name.** -/
theorem get?_eq_some_iff : c.get? name = some d ↔ d ∈ c.definitions ∧ d.name.text = name := by
  rw [get?, Option.bind_eq_some_iff]
  constructor
  · rintro ⟨place, hplace, hd⟩
    have hname := (c.indexed name place).mp hplace
    rw [List.getElem?_map, hd, Option.map_some] at hname
    exact ⟨List.mem_of_getElem? hd, Option.some.inj hname⟩
  · rintro ⟨hmem, hname⟩
    obtain ⟨place, hd⟩ := List.mem_iff_getElem?.mp hmem
    refine ⟨place, (c.indexed name place).mpr ?_, hd⟩
    rw [List.getElem?_map, hd, Option.map_some, hname]

theorem contains_iff_isSome_get? : c.contains name = true ↔ (c.get? name).isSome = true := by
  rw [contains_iff, nameList, List.mem_map, Option.isSome_iff_exists]
  exact exists_congr fun d => get?_eq_some_iff.symm

theorem mem_names_iff : name ∈ c.names ↔ c.contains name = true := by
  rw [names, SortedSet.mem_ofList, contains_iff]

/-! ## Registering -/

theorem register_eq_ok_iff : c.register d = .ok c' ↔
    ∃ h : c.contains d.name.text = false, c' = c.push d h := by
  rw [register]
  split
  · rename_i hknown
    exact iff_of_false (fun h => nomatch h) fun ⟨hnew, _⟩ =>
      Bool.false_ne_true (hnew.symm.trans hknown)
  · rename_i hnew
    constructor
    · intro h
      exact ⟨Bool.eq_false_iff.mpr hnew, (Except.ok.inj h).symm⟩
    · rintro ⟨_, rfl⟩
      rfl

/-- **Registering keeps the list as it is given.** -/
theorem foldlM_register_ok (h : definitions.foldlM register c = .ok c') :
    c'.definitions = c.definitions ++ definitions := by
  induction definitions generalizing c with
  | nil =>
    obtain rfl := Except.ok.inj h
    exact (List.append_nil _).symm
  | cons d definitions ih =>
    rw [List.foldlM_cons] at h
    obtain ⟨pushed, hpushed, hrest⟩ := Except.bind_eq_ok_iff.mp h
    obtain ⟨hnew, rfl⟩ := register_eq_ok_iff.mp hpushed
    rw [ih hrest, push, List.append_assoc]
    rfl

/-- **Registering succeeds exactly if no name comes twice.** -/
theorem exists_foldlM_register_iff : (∃ c', definitions.foldlM register c = .ok c') ↔
    ((c.definitions ++ definitions).map (·.name.text)).Nodup := by
  constructor
  · rintro ⟨c', h⟩
    rw [← foldlM_register_ok h]
    exact c'.distinct
  · intro h
    induction definitions generalizing c with
    | nil => exact ⟨c, rfl⟩
    | cons d definitions ih =>
      have hsplit : c.definitions ++ d :: definitions = c.definitions ++ [d] ++ definitions := by
        rw [List.append_assoc]
        rfl
      rw [hsplit] at h
      have hnew : c.contains d.name.text = false := by
        rw [Bool.eq_false_iff]
        intro hknown
        have hbefore : ((c.definitions ++ [d]).map (·.name.text)).Nodup := by
          rw [List.map_append] at h
          exact (List.nodup_append.mp h).1
        rw [List.map_append, List.nodup_append] at hbefore
        exact hbefore.2.2 _ (contains_iff.mp hknown) _ (List.mem_singleton.mpr rfl) rfl
      obtain ⟨c', hc'⟩ := ih (c := c.push d hnew) h
      refine ⟨c', ?_⟩
      rw [List.foldlM_cons]
      exact Except.bind_eq_ok_iff.mpr ⟨_, register_eq_ok_iff.mpr ⟨hnew, rfl⟩, hc'⟩

/-! ## Groups -/

/-- The labels of the groups are put in order as the members of a set are. -/
theorem labels_joinGroup : (joinGroup d groups).map Prod.fst =
    SortedSet.place d.group.text (groups.map Prod.fst) := by
  induction groups with
  | nil => rfl
  | cons group rest ih =>
    rw [joinGroup, List.map_cons, SortedSet.place]
    split
    · rfl
    · split
      · rw [List.map_cons, ih]
      · rfl

/-- **A permission joins the group of its label**, at the end, and no other group. -/
theorem lookup_joinGroup (h : (groups.map Prod.fst).Pairwise (· < ·)) :
    Table.lookup label (joinGroup d groups) =
      if label = d.group.text then some ((Table.lookup label groups).getD [] ++ [d])
      else Table.lookup label groups := by
  induction groups with
  | nil => simp [joinGroup, Table.lookup, eq_comm]
  | cons group rest ih =>
    obtain ⟨first, members⟩ := group
    obtain ⟨hfirst, hrest⟩ := List.pairwise_cons.mp h
    rw [joinGroup]
    split
    · -- The label comes before all others, so there is no group of it yet.
      rename_i hbefore
      have hnone : Table.lookup d.group.text ((first, members) :: rest) = none := by
        refine Table.lookup_eq_none.mpr fun hmem => ?_
        rcases List.mem_cons.mp hmem with heq | hmem
        · exact Std.lt_irrefl (heq ▸ hbefore)
        · exact Std.lt_irrefl (Std.lt_trans hbefore (hfirst _ hmem))
      by_cases hlabel : label = d.group.text
      · subst hlabel
        rw [if_pos rfl, hnone]
        exact if_pos rfl
      · rw [if_neg hlabel]
        exact if_neg (Ne.symm hlabel)
    · split
      · rename_i hafter
        rw [Table.lookup, Table.lookup, ih hrest]
        dsimp only
        by_cases hlabel : first = label
        · have hother : label ≠ d.group.text := by
            rintro rfl
            exact Std.lt_irrefl (hlabel ▸ hafter)
          rw [if_pos hlabel, if_neg hother, if_pos hlabel]
        · rw [if_neg hlabel, if_neg hlabel]
      · rename_i hnotbefore hnotafter
        obtain rfl := SortedSet.eq_of_not_lt hnotafter hnotbefore
        by_cases hlabel : label = d.group.text
        · subst hlabel
          simp [Table.lookup]
        · simp [Table.lookup, hlabel, Ne.symm hlabel]

/-- A permission that joins is one more member of the groups together. -/
theorem flatMap_joinGroup :
    ((joinGroup d groups).flatMap Prod.snd).Perm (groups.flatMap Prod.snd ++ [d]) := by
  induction groups with
  | nil => exact .refl _
  | cons group rest ih =>
    rw [joinGroup]
    split
    · rw [List.flatMap_cons]
      exact List.perm_append_comm
    · split
      · rw [List.flatMap_cons, List.flatMap_cons, List.append_assoc]
        exact ih.append_left _
      · rw [List.flatMap_cons, List.flatMap_cons, List.append_assoc, List.append_assoc]
        exact List.perm_append_comm.append_left _

/-- The permissions with a label, in order. -/
def withLabel (label : String) (definitions : List PermissionDefinition) :
    List PermissionDefinition :=
  definitions.filter fun d => decide (d.group.text = label)

theorem withLabel_concat : withLabel label (definitions ++ [d]) =
    if label = d.group.text then withLabel label definitions ++ [d]
    else withLabel label definitions := by
  by_cases hlabel : label = d.group.text
  · simp [withLabel, hlabel]
  · simp [withLabel, hlabel, Ne.symm hlabel]

/-- **Groups of a list of permissions**: under each label that occurs, the permissions with this
label. -/
structure Grouped (definitions : List PermissionDefinition)
    (groups : List (String × List PermissionDefinition)) : Prop where
  ascending : (groups.map Prod.fst).Pairwise (· < ·)
  lookup_eq : ∀ label, Table.lookup label groups =
    if withLabel label definitions = [] then none else some (withLabel label definitions)
  together : (groups.flatMap Prod.snd).Perm definitions

theorem Grouped.joinGroup (h : Grouped definitions groups) (d : PermissionDefinition) :
    Grouped (definitions ++ [d]) (joinGroup d groups) where
  ascending := by
    rw [labels_joinGroup]
    exact SortedSet.place_ascending h.ascending
  lookup_eq label := by
    rw [lookup_joinGroup h.ascending, h.lookup_eq, withLabel_concat]
    by_cases hlabel : label = d.group.text
    · by_cases hnone : withLabel label definitions = []
      · simp [hlabel, hlabel ▸ hnone]
      · simp [hlabel, hlabel ▸ hnone]
    · rw [if_neg hlabel, if_neg hlabel]
  together := flatMap_joinGroup.trans (h.together.append_right _)

theorem Grouped.foldl (h : Grouped definitions groups) (more : List PermissionDefinition) :
    Grouped (definitions ++ more)
      (more.foldl (fun groups d => Catalog.joinGroup d groups) groups) := by
  induction more generalizing definitions groups with
  | nil => rwa [List.append_nil]
  | cons d more ih =>
    have hmore := ih (h.joinGroup d)
    rwa [List.append_assoc] at hmore

theorem grouped_groups (c : Catalog) : Grouped c.definitions c.groups := by
  have hnone : Grouped [] [] := ⟨.nil, fun _ => rfl, .nil⟩
  exact hnone.foldl c.definitions

/-- A group has the permissions with its label, of which there are some. -/
theorem Grouped.members_eq (h : Grouped definitions groups) (hmem : (label, members) ∈ groups) :
    members ≠ [] ∧ members = withLabel label definitions := by
  have hfound : Table.lookup label groups = some members := by
    have hnodup : (groups.map Prod.fst).Nodup :=
      h.ascending.imp fun {a b} (hlt : a < b) (heq : a = b) => Std.lt_irrefl (heq ▸ hlt)
    exact (Table.find?_eq_some_iff (t := ⟨groups, hnodup⟩)).mpr hmem
  rw [h.lookup_eq] at hfound
  split at hfound
  · cases hfound
  · rename_i hsome
    obtain rfl := Option.some.inj hfound
    exact ⟨hsome, rfl⟩

/-! ## Known names -/

/-- Known names are names of the catalog. -/
theorem contains_of_ensureKnown {u : Unit} (h : c.ensureKnown names = .ok u)
    (hname : name ∈ names) : c.contains name = true := by
  rw [ensureKnown] at h
  split at h
  · rename_i hempty
    refine Decidable.byContradiction fun hno => ?_
    have hunknown : name ∈ SortedSet.ofList (names.filter fun name => !c.contains name) := by
      simp [hname, hno]
    rw [SortedSet.mem_def, List.isEmpty_iff.mp hempty] at hunknown
    exact absurd hunknown List.not_mem_nil
  · cases h

theorem ensureKnown_of_contains (h : ∀ name ∈ names, c.contains name = true) :
    c.ensureKnown names = .ok () := by
  have hnone : names.filter (fun name => !c.contains name) = [] :=
    List.filter_eq_nil_iff.mpr fun name hname => by simp [h name hname]
  rw [ensureKnown, hnone]
  rfl

/-- **Unknown names are listed**, each once and in order. -/
theorem exists_ensureKnown_eq_error (h : ¬∀ name ∈ names, c.contains name = true) :
    ∃ unknown : List String, unknown.Pairwise (· < ·) ∧
      (∀ name, name ∈ unknown ↔ name ∈ names ∧ c.contains name = false) ∧
      c.ensureKnown names =
        .error (.validation ("unknown permission(s): " ++ ", ".intercalate unknown)) := by
  refine ⟨(SortedSet.ofList (names.filter fun name => !c.contains name)).toList,
    SortedSet.ascending _, fun name => ?_, ?_⟩
  · rw [← SortedSet.mem_def, SortedSet.mem_ofList, List.mem_filter, Bool.not_eq_true']
  · have hfails : ∀ u, c.ensureKnown names ≠ .ok u := fun u hok =>
      h fun name hname => contains_of_ensureKnown hok hname
    rw [ensureKnown] at hfails ⊢
    split at hfails
    · exact absurd rfl (hfails ())
    · rename_i hsome
      exact if_neg hsome

/-! ## What a catalog of a list is -/

/-- **A catalog tells in every way what a list of permissions says.** -/
structure Tells (c : Catalog) (definitions : List PermissionDefinition) : Prop where
  definitions_eq : c.definitions = definitions
  get?_eq_some_iff : ∀ name d, c.get? name = some d ↔ d ∈ definitions ∧ d.name.text = name
  contains_iff_isSome : ∀ name, c.contains name = true ↔ (c.get? name).isSome = true
  contains_iff_mem_names : ∀ name, c.contains name = true ↔ name ∈ c.names
  labels_ascending : (c.groups.map Prod.fst).Pairwise (· < ·)
  members_eq : ∀ label members, (label, members) ∈ c.groups →
    members ≠ [] ∧ members = withLabel label definitions
  together : (c.groups.flatMap Prod.snd).Perm definitions
  ensureKnown_eq_ok_iff : ∀ names, c.ensureKnown names = .ok () ↔
    ∀ name ∈ names, c.contains name = true
  ensureKnown_eq_error : ∀ names, (¬∀ name ∈ names, c.contains name = true) →
    ∃ unknown : List String, unknown.Pairwise (· < ·) ∧
      (∀ name, name ∈ unknown ↔ name ∈ names ∧ c.contains name = false) ∧
      c.ensureKnown names =
        .error (.validation ("unknown permission(s): " ++ ", ".intercalate unknown))

theorem tells_definitions (c : Catalog) : c.Tells c.definitions where
  definitions_eq := rfl
  get?_eq_some_iff _ _ := Catalog.get?_eq_some_iff
  contains_iff_isSome _ := contains_iff_isSome_get?
  contains_iff_mem_names _ := mem_names_iff.symm
  labels_ascending := c.grouped_groups.ascending
  members_eq _ _ := c.grouped_groups.members_eq
  together := c.grouped_groups.together
  ensureKnown_eq_ok_iff _ := ⟨fun h _ => contains_of_ensureKnown h, ensureKnown_of_contains⟩
  ensureKnown_eq_error _ := exists_ensureKnown_eq_error

/-- **List and index of a catalog agree.**  A list of permissions becomes a catalog exactly if no
two of them have the same name, and then the catalog tells the list in every way: each name is
found as the one permission of the list that has it; the names that are contained are those that
are found and those that are listed; the groups have every permission once, each in the order of
the list; and names are known if all of them are contained, or else the unknown ones are
reported. -/
theorem list_and_index_agree (definitions : List PermissionDefinition) :
    ((∃ c, ofList definitions = .ok c) ↔ (definitions.map (·.name.text)).Nodup) ∧
      ∀ c, ofList definitions = .ok c → c.Tells definitions := by
  refine ⟨exists_foldlM_register_iff (c := empty), fun c h => ?_⟩
  have hdefinitions : c.definitions = definitions := foldlM_register_ok h
  exact hdefinitions ▸ c.tells_definitions

/-- Two permissions of one group become a catalog. -/
theorem two_permissions_are_told :
    let definitions : List PermissionDefinition :=
      [⟨⟨Permission.editUsers⟩, ⟨"Edit user"⟩, ⟨"Users"⟩⟩,
        ⟨⟨Permission.changeUserPermissions⟩, ⟨"Change user permissions"⟩, ⟨"Users"⟩⟩]
    ∃ c, ofList definitions = .ok c ∧ c.Tells definitions := by
  intro definitions
  obtain ⟨hexists, htells⟩ := list_and_index_agree definitions
  obtain ⟨c, hc⟩ := hexists.mpr (by decide)
  exact ⟨c, hc, htells c hc⟩

end AccessControl.Catalog
