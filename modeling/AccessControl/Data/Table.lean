/-! # Tables

A table holds at most one value for each key and remembers the order in which
the keys arrived.  It is read through `find?`; each operation is described by
what it does to `find?`.
-/
namespace AccessControl

/-- A finite map, as its entries in order of arrival; no key occurs twice. -/
structure Table (κ ν : Type) where
  /-- The keys with their values, oldest key first. -/
  entries : List (κ × ν)
  /-- No key has two entries. -/
  distinct : (entries.map Prod.fst).Nodup
  deriving DecidableEq, Repr

namespace Table
variable {κ ν : Type}

/-- The table without entries. -/
def empty : Table κ ν := ⟨[], .nil⟩

instance : EmptyCollection (Table κ ν) := ⟨empty⟩
instance : Inhabited (Table κ ν) := ⟨empty⟩

/-- The keys, oldest first. -/
def keys (t : Table κ ν) : List κ := t.entries.map Prod.fst

/-- The values, in the order of their keys. -/
def values (t : Table κ ν) : List ν := t.entries.map Prod.snd

/-- The number of entries. -/
def size (t : Table κ ν) : Nat := t.entries.length

/-- The entries whose key passes a test. -/
def filterKeys (p : κ → Bool) (t : Table κ ν) : Table κ ν :=
  ⟨t.entries.filter (fun e => p e.1),
    t.distinct.sublist (List.filter_sublist.map Prod.fst)⟩

/-- The entries that pass a test. -/
def filter (p : κ → ν → Bool) (t : Table κ ν) : Table κ ν :=
  ⟨t.entries.filter (fun e => p e.1 e.2),
    t.distinct.sublist (List.filter_sublist.map Prod.fst)⟩

/-- The table with every value changed, each key where it was. -/
def mapValues (f : κ → ν → ν) (t : Table κ ν) : Table κ ν :=
  ⟨t.entries.map (fun e => (e.1, f e.1 e.2)), by
    simpa [List.map_map, Function.comp_def] using t.distinct⟩

variable [DecidableEq κ]

/-- The value a list of entries holds for a key: that of the first such entry. -/
def lookup (k : κ) : List (κ × ν) → Option ν
  | [] => none
  | e :: rest => if e.1 = k then some e.2 else lookup k rest

/-- The value of a key. -/
def find? (t : Table κ ν) (k : κ) : Option ν := lookup k t.entries

/-- Whether a key has a value. -/
def contains (t : Table κ ν) (k : κ) : Bool := (t.find? k).isSome

/-- Removes a key with its value. -/
def erase (k : κ) (t : Table κ ν) : Table κ ν := t.filterKeys (fun k' => !decide (k' = k))

/-- Applies a change to the value of one key, if it has one. -/
def modify (k : κ) (f : ν → ν) (t : Table κ ν) : Table κ ν :=
  t.mapValues (fun k' v => if k' = k then f v else v)

theorem lookup_eq_none {k : κ} {l : List (κ × ν)} :
    lookup k l = none ↔ k ∉ l.map Prod.fst := by
  induction l with
  | nil => simp [lookup]
  | cons e rest ih =>
    rw [lookup]
    split
    · rename_i h
      simp [h]
    · rename_i h
      simp [ih, Ne.symm h]

theorem find?_eq_none {k : κ} {t : Table κ ν} : t.find? k = none ↔ k ∉ t.keys :=
  lookup_eq_none

/-- A key has the value that it has an entry with. -/
theorem find?_eq_some_iff {t : Table κ ν} {k : κ} {v : ν} :
    t.find? k = some v ↔ (k, v) ∈ t.entries := by
  obtain ⟨entries, hdistinct⟩ := t
  show lookup k entries = some v ↔ (k, v) ∈ entries
  induction entries with
  | nil => simp [lookup]
  | cons e rest ih =>
    obtain ⟨hnew, hrest⟩ := List.nodup_cons.mp hdistinct
    rw [lookup, List.mem_cons]
    split
    · rename_i hk
      subst hk
      have hnot : (e.1, v) ∉ rest := fun h => hnew (List.mem_map.mpr ⟨_, h, rfl⟩)
      rw [or_iff_left hnot, Option.some.injEq]
      exact ⟨fun h => h ▸ rfl, fun h => congrArg Prod.snd h.symm⟩
    · rename_i hk
      rw [ih hrest]
      exact ⟨.inr, fun h => h.resolve_left fun h => hk (congrArg Prod.fst h.symm)⟩

/-- Gives a key a value: in place of the old one, or as the newest entry. -/
def insert (k : κ) (v : ν) (t : Table κ ν) : Table κ ν :=
  if h : k ∈ t.keys then t.modify k (fun _ => v)
  else ⟨t.entries ++ [(k, v)], by
    have h' : k ∉ t.entries.map Prod.fst := h
    rw [List.map_append]
    refine List.nodup_append.mpr ⟨t.distinct, by simp, ?_⟩
    intro a ha b hb
    rcases List.mem_singleton.mp hb with rfl
    exact fun hab => h' (hab ▸ ha)⟩

/-! ## What each operation does to `find?` -/

@[simp] theorem find?_empty (k : κ) : (∅ : Table κ ν).find? k = none := rfl

theorem lookup_map_snd (f : κ → ν → ν) (k : κ) (l : List (κ × ν)) :
    lookup k (l.map (fun e => (e.1, f e.1 e.2))) = (lookup k l).map (f k) := by
  induction l with
  | nil => rfl
  | cons e rest ih =>
    simp only [List.map_cons, lookup]
    split
    · rename_i h
      simp [h]
    · exact ih

theorem find?_mapValues (f : κ → ν → ν) (t : Table κ ν) (k : κ) :
    (t.mapValues f).find? k = (t.find? k).map (f k) :=
  lookup_map_snd f k t.entries

theorem find?_modify (t : Table κ ν) (k k' : κ) (f : ν → ν) :
    (t.modify k f).find? k' = if k' = k then (t.find? k').map f else t.find? k' := by
  rw [modify, find?_mapValues]
  split
  · rfl
  · cases t.find? k' <;> rfl

theorem lookup_append {k : κ} {l m : List (κ × ν)} :
    lookup k (l ++ m) = (lookup k l).or (lookup k m) := by
  induction l with
  | nil => simp [lookup]
  | cons e rest ih =>
    simp only [List.cons_append, lookup]
    split
    · simp
    · exact ih

/-- **An insertion is seen at its key and nowhere else.** -/
theorem find?_insert (t : Table κ ν) (k k' : κ) (v : ν) :
    (t.insert k v).find? k' = if k' = k then some v else t.find? k' := by
  unfold insert
  split
  · rename_i h
    rw [find?_modify]
    split
    · rename_i hk
      cases hf : t.find? k' with
      | none => exact absurd (hk ▸ h) (find?_eq_none.mp hf)
      | some _ => rfl
    · rfl
  · rename_i h
    have hnone : t.find? k = none := find?_eq_none.mpr h
    change lookup k' (t.entries ++ [(k, v)]) = _
    rw [lookup_append]
    change (t.find? k').or _ = _
    by_cases hk : k' = k
    · rw [if_pos hk, hk, hnone]
      simp [lookup]
    · rw [if_neg hk]
      simp [lookup, Ne.symm hk]

theorem lookup_filter (p : κ → Bool) (k : κ) (l : List (κ × ν)) :
    lookup k (l.filter (fun e => p e.1)) = if p k then lookup k l else none := by
  induction l with
  | nil => simp [lookup]
  | cons e rest ih =>
    rw [List.filter_cons]
    split
    · rename_i hp
      simp only [lookup]
      split
      · rename_i h
        rw [← h, if_pos hp]
      · exact ih
    · rename_i hp
      rw [ih, lookup]
      split
      · split
        · rename_i h' h
          exact absurd (h ▸ h') hp
        · rfl
      · rfl

theorem find?_filterKeys (p : κ → Bool) (t : Table κ ν) (k : κ) :
    (t.filterKeys p).find? k = if p k then t.find? k else none :=
  lookup_filter p k t.entries

theorem lookup_filter_pair (p : κ → ν → Bool) (k : κ) {l : List (κ × ν)}
    (h : (l.map Prod.fst).Nodup) :
    lookup k (l.filter (fun e => p e.1 e.2)) = (lookup k l).filter (p k) := by
  induction l with
  | nil => rfl
  | cons e rest ih =>
    obtain ⟨hnew, hrest⟩ := List.nodup_cons.mp h
    by_cases hk : e.1 = k
    · by_cases hp : p e.1 e.2 = true
      · subst hk
        simp [lookup, hp, Option.filter]
      · subst hk
        simp [lookup, hp, ih hrest, lookup_eq_none.mpr hnew, Option.filter]
    · by_cases hp : p e.1 e.2 = true <;> simp [lookup, hp, hk, ih hrest]

theorem find?_filter (p : κ → ν → Bool) (t : Table κ ν) (k : κ) :
    (t.filter p).find? k = (t.find? k).filter (p k) :=
  lookup_filter_pair p k t.distinct

/-- **A removal is seen at its key and nowhere else.** -/
theorem find?_erase (t : Table κ ν) (k k' : κ) :
    (t.erase k).find? k' = if k' = k then none else t.find? k' := by
  rw [erase, find?_filterKeys]
  by_cases h : k' = k <;> simp [h]

end Table
end AccessControl
