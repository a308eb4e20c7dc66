import AccessControl.Proofs.Json.Faithful
import Mathlib.Data.List.Forall2
import Mathlib.Data.List.Nodup
import Mathlib.Tactic.Simproc.ExistsAndEq

/-! # What reads as a record

An object reads as a record if each field is there once and its value is spelled as it is to be, or
the field is absent and may be; other members may be anything that is JSON.  A list reads as a
record if it goes through the fields in their order (`IsRecord`).  Nothing in this depends on the
order in which the members of an object stand.

A reader goes through the members one after the other.  What it finds for a field is what there is
of the field (`Collected`), so it succeeds with the wanted values on exactly the records
(`readRecord_iff`).
-/
namespace AccessControl.Json

/-- A field of a record, and what it is to hold. -/
structure Slot where
  name : String
  /-- How the value is spelled. -/
  spelled : Reading → Prop
  /-- Whether the field may be absent from an object. -/
  absent : Prop
  /-- Whether a list may end before the field. -/
  dropped : Prop

namespace Slot

/-- A field that is always there. -/
def required (name : String) (spelled : Reading → Prop) : Slot := ⟨name, spelled, False, False⟩

/-- A field for a value that may be missing: it is then absent or `null`. -/
def optional {α : Type} (name : String) (spells : α → Reading → Prop) (a? : Option α) : Slot where
  name
  spelled v := (a? = none ∧ v = .null) ∨ ∃ a, a? = some a ∧ spells a v
  absent := a? = none
  dropped := a? = none

/-- A field that may be `null`, whatever value it would have, and is then absent from an object but
not from a list. -/
def nullable {α : Type} (name : String) (spells : α → Reading → Prop) : Slot where
  name
  spelled v := v = .null ∨ ∃ a, spells a v
  absent := True
  dropped := False

@[simp] theorem name_required {name : String} {spelled : Reading → Prop} :
    (required name spelled).name = name := rfl

@[simp] theorem name_optional {α : Type} {name : String} {spells : α → Reading → Prop}
    {a? : Option α} : (optional name spells a?).name = name := rfl

/-- Of the values that there are for a field, the field is filled by the only one, or by none if it
may be absent. -/
inductive Fills (slot : Slot) : List Reading → Prop where
  | once {v : Reading} (h : slot.spelled v) : slot.Fills [v]
  | absent (h : slot.absent) : slot.Fills []

theorem name_ne_of_new {slots : List Slot} {name : String} (h : name ∉ slots.map Slot.name) :
    ∀ slot ∈ slots, slot.name ≠ name := by
  rintro slot hslot rfl
  exact h (List.mem_map_of_mem hslot)

theorem Fills.length_le {slot : Slot} {vs : List Reading} (h : slot.Fills vs) : vs.length ≤ 1 := by
  cases h with
  | once _ => exact Nat.le_refl 1
  | absent _ => exact Nat.zero_le 1

theorem Fills.spelled {slot : Slot} {vs : List Reading} (h : slot.Fills vs) {v : Reading}
    (hv : v ∈ vs) : slot.spelled v := by
  cases h with
  | once h =>
    obtain rfl := List.mem_singleton.mp hv
    exact h
  | absent _ => exact absurd hv List.not_mem_nil

end Slot

/-- The members of an object. -/
abbrev Members : Type := List (Option String × Reading)

/-- The values that members have for a name. -/
def valuesOf (name : String) (members : Members) : List Reading :=
  members.filterMap fun m => if m.1 = some name then some m.2 else none

/-- **Members make up a record.** -/
structure IsObject (slots : List Slot) (members : Members) : Prop where
  named : ∀ m ∈ members, m.1.isSome = true
  fields : ∀ slot ∈ slots, slot.Fills (valuesOf slot.name members)
  /-- What is not known is passed over. -/
  others : ∀ m ∈ members, (∀ slot ∈ slots, m.1 ≠ some slot.name) → m.2.isWhole = true

/-- **Items make up a record**: one for each field, and nothing for fields at the end that may be
dropped. -/
inductive IsList : List Slot → List Reading → Prop where
  | nil : IsList [] []
  | item {slot : Slot} {slots : List Slot} {v : Reading} {items : List Reading}
    (h : slot.spelled v) (hrest : IsList slots items) : IsList (slot :: slots) (v :: items)
  | dropped {slot : Slot} {slots : List Slot} (h : slot.dropped) (hrest : IsList slots []) :
    IsList (slot :: slots) []

/-- **What a text reads as is a record**, an object or a list of the fields. -/
inductive IsRecord (slots : List Slot) : Reading → Prop where
  | object {members : Members} (h : IsObject slots members) : IsRecord slots (.obj members true)
  | list {items : List Reading} (h : IsList slots items) : IsRecord slots (.arr items true)

/-! ## Values of a name -/

theorem valuesOf_cons_self {name : String} {v : Reading} {members : Members} :
    valuesOf name ((some name, v) :: members) = v :: valuesOf name members :=
  List.filterMap_cons_some (if_pos rfl)

theorem valuesOf_cons_of_ne {name key : String} {v : Reading} {members : Members}
    (h : key ≠ name) : valuesOf name ((some key, v) :: members) = valuesOf name members :=
  List.filterMap_cons_none (if_neg fun hkey => h (Option.some.inj hkey))

theorem mem_valuesOf {name : String} {members : Members} {v : Reading} :
    v ∈ valuesOf name members ↔ (some name, v) ∈ members := by
  rw [valuesOf, List.mem_filterMap]
  constructor
  · rintro ⟨⟨key, w⟩, hm, h⟩
    split at h
    · rename_i hkey
      obtain rfl := Option.some.inj h
      change key = some name at hkey
      rwa [hkey] at hm
    · cases h
  · intro h
    exact ⟨_, h, if_pos rfl⟩

/-! ## What is found -/

theorem find?_cons_self {found : Found} {name : String} {v : Reading} :
    Found.find? ((name, v) :: found) name = some v := List.lookup_cons_self

theorem find?_cons_of_ne {found : Found} {key name : String} {v : Reading} (h : name ≠ key) :
    Found.find? ((key, v) :: found) name = found.find? name := by
  rw [Found.find?, List.lookup_cons, beq_false_of_ne h, Found.find?]

theorem find?_append_of_ne {found : Found} {key name : String} {v : Reading} (h : name ≠ key) :
    (found ++ [(key, v)] : Found).find? name = found.find? name := by
  induction found with
  | nil => exact find?_cons_of_ne h
  | cons e found ih =>
    obtain ⟨other, w⟩ := e
    show Found.find? ((other, w) :: (found ++ [(key, v)])) name = _
    -- What was found first stays first, whatever is added at the end.
    by_cases hname : name = other
    · rw [hname, find?_cons_self, find?_cons_self]
    · rw [find?_cons_of_ne hname, find?_cons_of_ne hname, ih]

theorem field_of_find? {fields : List Field} {field : Field} {key : String}
    (h : fields.find? (·.name == key) = some field) : field ∈ fields ∧ field.name = key := by
  have hname := List.find?_some h
  exact ⟨List.mem_of_find?_eq_some h, beq_iff_eq.mp hname⟩

theorem unknown_of_find? {fields : List Field} {key : String}
    (h : fields.find? (·.name == key) = none) : ∀ f ∈ fields, key ≠ f.name := by
  rintro f hf rfl
  exact List.find?_eq_none.mp h f hf (beq_self_eq_true _)

theorem find?_append_self {found : Found} {name : String} {v : Reading}
    (h : found.find? name = none) : (found ++ [(name, v)] : Found).find? name = some v := by
  induction found with
  | nil => exact find?_cons_self
  | cons e found ih =>
    obtain ⟨other, w⟩ := e
    show Found.find? ((other, w) :: (found ++ [(name, v)])) name = _
    by_cases hname : name = other
    · rw [hname, find?_cons_self] at h
      cases h
    · rw [find?_cons_of_ne hname] at h ⊢
      exact ih h

/-- What has been found after some members, and what was found before them. -/
structure Collected (fields : List Field) (found : Found) (members : Members) (found' : Found) :
    Prop where
  named : ∀ m ∈ members, m.1.isSome = true
  values : ∀ f ∈ fields,
    (found'.find? f.name).toList = (found.find? f.name).toList ++ valuesOf f.name members
  others : ∀ m ∈ members, (∀ f ∈ fields, m.1 ≠ some f.name) → m.2.isWhole = true

variable {fields : List Field} {slots : List Slot} {found found' : Found} {members : Members}

/-- What is collected is what there is of each field. -/
theorem collected_of_collect (h : collect fields found members = .ok found') :
    Collected fields found members found' := by
  induction members generalizing found with
  | nil =>
    obtain rfl := Except.ok.inj h
    exact ⟨List.forall_mem_nil _, fun f _ => (List.append_nil _).symm, List.forall_mem_nil _⟩
  | cons m ms ih =>
    obtain ⟨key?, v⟩ := m
    cases key? with
    | none => cases h
    | some key =>
      rw [collect] at h
      cases hfield : fields.find? (·.name == key) with
      | none =>
        rw [hfield] at h
        dsimp only at h
        split at h
        · rename_i hwhole
          obtain ⟨hnamed, hvalues, hothers⟩ := ih h
          refine ⟨List.forall_mem_cons.mpr ⟨rfl, hnamed⟩, fun f hf => ?_,
            List.forall_mem_cons.mpr ⟨fun _ => hwhole, hothers⟩⟩
          rw [valuesOf_cons_of_ne (unknown_of_find? hfield f hf)]
          exact hvalues f hf
        · cases h
      | some field =>
        rw [hfield] at h
        dsimp only at h
        split at h
        · cases h
        · rename_i hnew
          obtain ⟨_, -, h⟩ := Except.bind_eq_ok_iff.mp h
          obtain ⟨hnamed, hvalues, hothers⟩ := ih h
          have hnone : found.find? key = none := Option.not_isSome_iff_eq_none.mp hnew
          obtain ⟨hmem, hkey⟩ := field_of_find? hfield
          refine ⟨List.forall_mem_cons.mpr ⟨rfl, hnamed⟩, fun f hf => ?_,
            List.forall_mem_cons.mpr ⟨fun hnot => ?_, hothers⟩⟩
          · rw [hvalues f hf]
            by_cases hf' : f.name = key
            · rw [hf', find?_append_self hnone, valuesOf_cons_self, hnone]
              rfl
            · rw [find?_append_of_ne hf', valuesOf_cons_of_ne (Ne.symm hf')]
          · exact absurd (congrArg some hkey.symm) (hnot field hmem)

/-- Members are collected if no field is there twice, each value passes, and what is not known can
be passed over. -/
theorem exists_collect (hnamed : ∀ m ∈ members, m.1.isSome = true)
    (honce : ∀ f ∈ fields,
      ((found.find? f.name).toList ++ valuesOf f.name members).length ≤ 1)
    (hcheck : ∀ f ∈ fields, ∀ v ∈ valuesOf f.name members, f.check v = .ok ())
    (hothers : ∀ m ∈ members, (∀ f ∈ fields, m.1 ≠ some f.name) → m.2.isWhole = true) :
    ∃ found', collect fields found members = .ok found' := by
  induction members generalizing found with
  | nil => exact ⟨found, rfl⟩
  | cons m ms ih =>
    obtain ⟨key?, v⟩ := m
    obtain ⟨hkeyed, hnamed'⟩ := List.forall_mem_cons.mp hnamed
    obtain ⟨key, rfl⟩ := Option.isSome_iff_exists.mp hkeyed
    obtain ⟨hwhole, hothers'⟩ := List.forall_mem_cons.mp hothers
    have hcheck' : ∀ f ∈ fields, ∀ w ∈ valuesOf f.name ms, f.check w = .ok () := fun f hf w hw =>
      hcheck f hf w (mem_valuesOf.mpr (List.mem_cons_of_mem _ (mem_valuesOf.mp hw)))
    rw [collect]
    cases hfield : fields.find? (·.name == key) with
    | none =>
      have hunknown := unknown_of_find? hfield
      dsimp only
      rw [if_pos (hwhole fun f hf hkey => hunknown f hf (Option.some.inj hkey))]
      refine ih hnamed' (fun f hf => ?_) hcheck' hothers'
      have hlength := honce f hf
      rwa [valuesOf_cons_of_ne (hunknown f hf)] at hlength
    | some field =>
      obtain ⟨hmem, rfl⟩ := field_of_find? hfield
      have hlength := honce field hmem
      rw [valuesOf_cons_self, List.length_append, List.length_cons] at hlength
      have hnone : found.find? field.name = none := by
        cases hfound : found.find? field.name with
        | none => rfl
        | some w =>
          rw [hfound, Option.toList_some, List.length_singleton] at hlength
          omega
      have hpasses : field.check v = .ok () :=
        hcheck field hmem v (mem_valuesOf.mpr List.mem_cons_self)
      dsimp only
      rw [hnone, hpasses]
      refine ih hnamed' (fun f hf => ?_) hcheck' hothers'
      by_cases hf' : f.name = field.name
      · rw [hf', find?_append_self hnone, List.length_append]
        rw [Option.toList_some, List.length_singleton]
        omega
      · have hlength' := honce f hf
        rwa [valuesOf_cons_of_ne (Ne.symm hf'), ← find?_append_of_ne hf'] at hlength'

/-! ## Fields and what they are to hold -/

/-- **A reader reads what spells a value**, as that value, and nothing else. -/
class Reads {α : Type} (read : Reader α) (spells : outParam (α → Reading → Prop)) : Prop where
  iff : ∀ {v : Reading} {a : α}, read v = .ok a ↔ spells a v

theorem checking_eq_ok_iff {α : Type} {read : Reader α} {v : Reading} :
    checking read v = .ok () ↔ ∃ a, read v = .ok a := by
  rw [checking]
  cases read v with
  | error fault => exact iff_of_false nofun nofun
  | ok a => exact iff_of_true rfl ⟨a, rfl⟩

/-- A field takes the values that it is to hold. -/
structure Takes (field : Field) (slot : Slot) : Prop where
  name : field.name = slot.name
  passes : ∀ v, slot.spelled v → field.check v = .ok ()
  absent : slot.absent → field.neededInObject = false
  dropped : slot.dropped ↔ slot.absent ∧ field.neededInList = false

section
variable {α : Type} {read : Reader α} {spells : α → Reading → Prop} [Reads read spells]
  {name : String} {a : α} {a? : Option α}

theorem takes_required : Takes (.required name read) (.required name (spells a)) where
  name := rfl
  passes _ hv := checking_eq_ok_iff.mpr ⟨_, Reads.iff.mpr hv⟩
  absent := False.elim
  dropped := iff_of_false id And.left

theorem get_eq_ok_iff : found.get name read = .ok a ↔
    (Slot.required name (spells a)).Fills (found.find? name).toList := by
  rw [Found.get]
  cases found.find? name with
  | none =>
    constructor
    · intro h
      cases h
    · intro h
      cases h with
      | absent h => exact h.elim
  | some v =>
    have hread : read v = .ok a ↔ spells a v := Reads.iff
    constructor
    · intro h
      exact .once (hread.mp h)
    · intro h
      cases h with
      | once h => exact hread.mpr h

/-- A value that may be missing is `null` if it is; nothing else reads as missing. -/
theorem readOptional_eq_ok_iff (hnull : ∀ b, ¬spells b .null) {v : Reading} :
    readOptional read v = .ok a? ↔ (a? = none ∧ v = .null) ∨ ∃ a, a? = some a ∧ spells a v := by
  rw [readOptional.eq_def]
  -- Only `null` is read before the reader itself is asked.
  split
  · constructor
    · intro h
      exact .inl ⟨(Except.ok.inj h).symm, rfl⟩
    · rintro (⟨rfl, -⟩ | ⟨b, -, hb⟩)
      · rfl
      · exact absurd hb (hnull b)
  · rename_i hne
    constructor
    · intro h
      cases hread : read v with
      | error fault =>
        rw [hread] at h
        cases h
      | ok b =>
        rw [hread] at h
        exact .inr ⟨b, (Except.ok.inj h).symm, Reads.iff.mp hread⟩
    · rintro (⟨-, rfl⟩ | ⟨b, rfl, hb⟩)
      · exact absurd rfl hne
      · have hread : read v = .ok b := Reads.iff.mpr hb
        rw [hread]
        rfl

theorem takes_optional (hnull : ∀ b, ¬spells b .null) :
    Takes (.optional name read) (.optional name spells a?) where
  name := rfl
  passes _ hv := checking_eq_ok_iff.mpr ⟨_, (readOptional_eq_ok_iff hnull).mpr hv⟩
  absent _ := rfl
  dropped := (and_iff_left rfl).symm

/-- A value passes as one that may be `null` exactly if it is or reads as a value. -/
theorem check_nullable_iff (hnull : ∀ b, ¬spells b .null) {v : Reading} :
    (Field.nullable name read).check v = .ok () ↔ (Slot.nullable name spells).spelled v := by
  show checking (readOptional read) v = .ok () ↔ _
  rw [checking_eq_ok_iff]
  constructor
  · rintro ⟨a?, h⟩
    rcases (readOptional_eq_ok_iff hnull).mp h with ⟨-, rfl⟩ | ⟨a, -, h⟩
    · exact .inl rfl
    · exact .inr ⟨a, h⟩
  · rintro (rfl | ⟨a, h⟩)
    · exact ⟨none, rfl⟩
    · exact ⟨some a, (readOptional_eq_ok_iff hnull).mpr (.inr ⟨a, rfl, h⟩)⟩

theorem takes_nullable (hnull : ∀ b, ¬spells b .null) :
    Takes (.nullable name read) (.nullable name spells) where
  name := rfl
  passes _ hv := (check_nullable_iff hnull).mpr hv
  absent _ := rfl
  dropped := iff_of_false id fun h => Bool.noConfusion h.2

theorem get?_eq_ok_iff (hnull : ∀ b, ¬spells b .null) : found.get? name read = .ok a? ↔
    (Slot.optional name spells a?).Fills (found.find? name).toList := by
  rw [Found.get?]
  cases found.find? name with
  | none =>
    constructor
    · intro h
      exact .absent (Except.ok.inj h).symm
    · intro h
      cases h with
      | absent h => exact congrArg Except.ok (show a? = none from h).symm
  | some v =>
    constructor
    · intro h
      exact .once ((readOptional_eq_ok_iff hnull).mp h)
    · intro h
      cases h with
      | once h => exact (readOptional_eq_ok_iff hnull).mpr h

end

/-! ## Reading records -/

/-- Of two lists that are related one by one, what is in the first has a partner in the second. -/
theorem exists_partner {α β : Type} {R : α → β → Prop} {as : List α} {bs : List β}
    (h : List.Forall₂ R as bs) {a : α} (ha : a ∈ as) : ∃ b ∈ bs, R a b := by
  induction h with
  | nil => exact absurd ha List.not_mem_nil
  | cons hpair _ ih =>
    rcases List.mem_cons.mp ha with rfl | ha
    · exact ⟨_, List.mem_cons_self, hpair⟩
    · obtain ⟨b, hb, hpair⟩ := ih ha
      exact ⟨b, List.mem_cons_of_mem _ hb, hpair⟩

theorem slot_of_field (h : List.Forall₂ Takes fields slots) {f : Field} (hf : f ∈ fields) :
    ∃ slot ∈ slots, Takes f slot := exists_partner h hf

theorem field_of_slot (h : List.Forall₂ Takes fields slots) {slot : Slot} (hslot : slot ∈ slots) :
    ∃ f ∈ fields, Takes f slot := exists_partner (List.Forall₂.flip h) hslot

/-- Every slot is filled by what was found for its field. -/
def Found.Fills (found : Found) (slots : List Slot) : Prop :=
  ∀ slot ∈ slots, slot.Fills (found.find? slot.name).toList

theorem Found.fills_nil : found.Fills [] ↔ True := iff_true_intro (List.forall_mem_nil _)

theorem Found.fills_cons {slot : Slot} : found.Fills (slot :: slots) ↔
    slot.Fills (found.find? slot.name).toList ∧ found.Fills slots := List.forall_mem_cons

theorem collect_iff (h : List.Forall₂ Takes fields slots) :
    (∃ found, collect fields [] members = .ok found ∧ found.Fills slots) ↔
      IsObject slots members := by
  constructor
  · rintro ⟨found, hcollect, hfills⟩
    have hcollected := collected_of_collect hcollect
    refine ⟨hcollected.named, fun slot hslot => ?_, fun m hm hnot => ?_⟩
    · obtain ⟨f, hf, htakes⟩ := field_of_slot h hslot
      have hvalues := hcollected.values f hf
      rw [htakes.name] at hvalues
      have hfilled := hfills slot hslot
      rwa [hvalues] at hfilled
    · refine hcollected.others m hm fun f hf hkey => ?_
      obtain ⟨slot, hslot, htakes⟩ := slot_of_field h hf
      exact hnot slot hslot (htakes.name ▸ hkey)
  · intro hobject
    have hfilled : ∀ f ∈ fields, ∃ slot, Takes f slot ∧ slot.Fills (valuesOf f.name members) := by
      intro f hf
      obtain ⟨slot, hslot, htakes⟩ := slot_of_field h hf
      exact ⟨slot, htakes, htakes.name ▸ hobject.fields slot hslot⟩
    obtain ⟨found, hcollect⟩ : ∃ found, collect fields [] members = .ok found := by
      refine exists_collect hobject.named (fun f hf => ?_) (fun f hf v hv => ?_) fun m hm hnot => ?_
      · obtain ⟨slot, -, hfills⟩ := hfilled f hf
        exact hfills.length_le
      · obtain ⟨slot, htakes, hfills⟩ := hfilled f hf
        exact htakes.passes v (hfills.spelled hv)
      · refine hobject.others m hm fun slot hslot hkey => ?_
        obtain ⟨f, hf, htakes⟩ := field_of_slot h hslot
        exact hnot f hf (htakes.name ▸ hkey)
    refine ⟨found, hcollect, fun slot hslot => ?_⟩
    obtain ⟨f, hf, htakes⟩ := field_of_slot h hslot
    have hvalues := (collected_of_collect hcollect).values f hf
    rw [htakes.name] at hvalues
    rw [hvalues]
    exact hobject.fields slot hslot

theorem find?_deal_of_ne {items : List Reading} {closed : Bool} {name : String}
    (h : deal fields items closed = .ok found) (hnot : ∀ f ∈ fields, f.name ≠ name) :
    found.find? name = none := by
  induction fields generalizing items found with
  | nil =>
    cases items with
    | nil =>
      rw [deal] at h
      split at h
      · obtain rfl := Except.ok.inj h
        rfl
      · cases h
    | cons v vs => cases h
  | cons f fields ih =>
    obtain ⟨hname, hnot⟩ := List.forall_mem_cons.mp hnot
    cases items with
    | nil =>
      rw [deal] at h
      split at h
      · cases h
      · split at h
        · cases h
        · exact ih h hnot
    | cons v vs =>
      rw [deal] at h
      obtain ⟨_, -, h⟩ := Except.bind_eq_ok_iff.mp h
      obtain ⟨rest, hrest, h⟩ := Except.bind_eq_ok_iff.mp h
      obtain rfl := Except.ok.inj h
      rw [find?_cons_of_ne (Ne.symm hname)]
      exact ih hrest hnot

/-- What is found for a slot is of no consequence for slots of other names. -/
theorem Found.fills_item {slot : Slot} {v : Reading}
    (hne : ∀ other ∈ slots, other.name ≠ slot.name) :
    Found.Fills ((slot.name, v) :: found) (slot :: slots) ↔
      slot.spelled v ∧ found.Fills slots := by
  rw [Found.Fills, List.forall_mem_cons, find?_cons_self]
  refine and_congr ⟨fun hfills => hfills.spelled (List.mem_singleton.mpr rfl), .once⟩ ?_
  refine forall_congr' fun other => forall_congr' fun hother => ?_
  rw [find?_cons_of_ne (hne other hother)]

/-- If a list ends before a field, then before a field that may be dropped. -/
theorem deal_nil_iff {field : Field} {slot : Slot} {closed : Bool} (htakes : Takes field slot)
    (hunknown : ∀ f ∈ fields, f.name ≠ slot.name)
    (ih : (∃ found, deal fields [] closed = .ok found ∧ found.Fills slots) ↔
      closed = true ∧ IsList slots []) :
    (∃ found, deal (field :: fields) [] closed = .ok found ∧ found.Fills (slot :: slots)) ↔
      closed = true ∧ IsList (slot :: slots) [] := by
  rw [deal]
  constructor
  · rintro ⟨found, hdeal, hfills⟩
    split at hdeal
    · cases hdeal
    · split at hdeal
      · cases hdeal
      · rename_i hneeded
        obtain ⟨hfilled, hfills⟩ := List.forall_mem_cons.mp hfills
        obtain ⟨hclosed, hlist⟩ := ih.mp ⟨found, hdeal, hfills⟩
        rw [find?_deal_of_ne hdeal hunknown] at hfilled
        cases hfilled with
        | absent habsent =>
          have hdropped := htakes.dropped.mpr ⟨habsent, eq_false_of_ne_true hneeded⟩
          exact ⟨hclosed, .dropped hdropped hlist⟩
  · rintro ⟨rfl, hlist⟩
    cases hlist with
    | dropped hdropped hlist =>
      obtain ⟨found, hdeal, hfills⟩ := ih.mpr ⟨rfl, hlist⟩
      obtain ⟨habsent, hneeded⟩ := htakes.dropped.mp hdropped
      rw [hneeded]
      refine ⟨found, hdeal, List.forall_mem_cons.mpr ⟨?_, hfills⟩⟩
      rw [find?_deal_of_ne hdeal hunknown]
      exact .absent habsent

/-- An item goes to the first field. -/
theorem deal_cons_iff {field : Field} {slot : Slot} {v : Reading} {vs : List Reading}
    {closed : Bool} (htakes : Takes field slot) (hne : ∀ other ∈ slots, other.name ≠ slot.name)
    (ih : (∃ found, deal fields vs closed = .ok found ∧ found.Fills slots) ↔
      closed = true ∧ IsList slots vs) :
    (∃ found, deal (field :: fields) (v :: vs) closed = .ok found ∧
        found.Fills (slot :: slots)) ↔
      closed = true ∧ IsList (slot :: slots) (v :: vs) := by
  rw [deal, htakes.name]
  constructor
  · rintro ⟨found, hdeal, hfills⟩
    obtain ⟨_, -, hdeal⟩ := Except.bind_eq_ok_iff.mp hdeal
    obtain ⟨rest, hothers, hok⟩ := Except.bind_eq_ok_iff.mp hdeal
    obtain rfl := Except.ok.inj hok
    obtain ⟨hspelled, hfills⟩ := (Found.fills_item hne).mp hfills
    obtain ⟨hclosed, hlist⟩ := ih.mp ⟨rest, hothers, hfills⟩
    exact ⟨hclosed, .item hspelled hlist⟩
  · rintro ⟨rfl, hlist⟩
    cases hlist with
    | item hspelled hlist =>
      obtain ⟨rest, hdeal, hfills⟩ := ih.mpr ⟨rfl, hlist⟩
      rw [htakes.passes v hspelled]
      refine ⟨(slot.name, v) :: rest, ?_, (Found.fills_item hne).mpr ⟨hspelled, hfills⟩⟩
      show (deal fields vs true >>= fun rest => pure ((slot.name, v) :: rest)) = _
      rw [hdeal]
      rfl

theorem deal_iff (h : List.Forall₂ Takes fields slots) (hdistinct : (slots.map Slot.name).Nodup)
    {items : List Reading} {closed : Bool} :
    (∃ found, deal fields items closed = .ok found ∧ found.Fills slots) ↔
      closed = true ∧ IsList slots items := by
  induction h generalizing items with
  | nil =>
    cases items with
    | nil =>
      rw [deal]
      cases closed with
      | false => simp
      | true => exact iff_of_true ⟨[], rfl, List.forall_mem_nil _⟩ ⟨rfl, .nil⟩
    | cons v vs =>
      refine iff_of_false ?_ ?_
      · rintro ⟨found, h, -⟩
        cases h
      · rintro ⟨-, h⟩
        cases h
  | @cons field slot fields slots htakes hrest ih =>
    obtain ⟨hnew, hdistinct⟩ := List.nodup_cons.mp hdistinct
    have hne := Slot.name_ne_of_new hnew
    cases items with
    | nil =>
      refine deal_nil_iff htakes (fun f hf => ?_) (ih hdistinct)
      obtain ⟨other, hother, htakes'⟩ := slot_of_field hrest hf
      rw [htakes'.name]
      exact hne other hother
    | cons v vs => exact deal_cons_iff htakes hne (ih hdistinct)

/-- **A record is read with the wanted values exactly if it is one that holds them.** -/
theorem readRecord_iff (h : List.Forall₂ Takes fields slots)
    (hdistinct : (slots.map Slot.name).Nodup) {v : Reading} :
    (∃ found, readRecord fields v = .ok found ∧ found.Fills slots) ↔ IsRecord slots v := by
  have hrefused : ∀ fault : Fault, ¬∃ found : Found,
      (Except.error fault : Except Fault Found) = .ok found ∧ found.Fills slots := by
    rintro fault ⟨found, hread, -⟩
    cases hread
  cases v with
  | obj members closed =>
    rw [readRecord]
    constructor
    · rintro ⟨found, hread, hfills⟩
      obtain ⟨found', hcollect, hread⟩ := Except.bind_eq_ok_iff.mp hread
      split at hread
      · cases hread
      · rename_i hclosed
        split at hread
        · cases hread
        · obtain rfl := Except.ok.inj hread
          obtain rfl : closed = true := by simpa using hclosed
          exact .object ((collect_iff h).mp ⟨found', hcollect, hfills⟩)
    · intro hrecord
      cases hrecord with
      | object hobject =>
        obtain ⟨found, hcollect, hfills⟩ := (collect_iff h).mpr hobject
        have hnone : fields.any (fun f => f.neededInObject && (found.find? f.name).isNone) =
            false := by
          rw [List.any_eq_false]
          intro f hf hmissing
          obtain ⟨hneeded, hnone⟩ := Bool.and_eq_true_iff.mp hmissing
          obtain ⟨slot, hslot, htakes⟩ := slot_of_field h hf
          have hfilled := hfills slot hslot
          rw [← htakes.name, Option.isNone_iff_eq_none.mp hnone] at hfilled
          cases hfilled with
          | absent habsent =>
            rw [htakes.absent habsent] at hneeded
            exact Bool.noConfusion hneeded
        refine ⟨found, ?_, hfills⟩
        show (collect fields [] members >>= _) = _
        rw [hcollect]
        show (if fields.any _ = true then _ else _) = _
        rw [hnone]
        rfl
  | arr items closed =>
    rw [readRecord, deal_iff h hdistinct]
    constructor
    · rintro ⟨rfl, hlist⟩
      exact .list hlist
    · intro hrecord
      cases hrecord with
      | list hlist => exact ⟨rfl, hlist⟩
  | _ => exact iff_of_false (hrefused _) nofun

/-- Every value that was found passes the check of its field. -/
def Found.Checked (found : Found) (fields : List Field) : Prop :=
  ∀ e ∈ found, ∃ f ∈ fields, f.name = e.1 ∧ f.check e.2 = .ok ()

theorem checked_of_collect (hfound : found.Checked fields)
    (h : collect fields found members = .ok found') : found'.Checked fields := by
  induction members generalizing found with
  | nil =>
    obtain rfl := Except.ok.inj h
    exact hfound
  | cons m ms ih =>
    obtain ⟨key?, v⟩ := m
    cases key? with
    | none => cases h
    | some key =>
      rw [collect] at h
      cases hfield : fields.find? (·.name == key) with
      | none =>
        rw [hfield] at h
        dsimp only at h
        split at h
        · exact ih hfound h
        · cases h
      | some field =>
        rw [hfield] at h
        dsimp only at h
        split at h
        · cases h
        · obtain ⟨_, hcheck, h⟩ := Except.bind_eq_ok_iff.mp h
          obtain ⟨hmem, hkey⟩ := field_of_find? hfield
          refine ih ?_ h
          exact List.forall_mem_append.mpr
            ⟨hfound, List.forall_mem_singleton.mpr ⟨field, hmem, hkey, hcheck⟩⟩

theorem checked_of_deal {items : List Reading} {closed : Bool}
    (h : deal fields items closed = .ok found) : found.Checked fields := by
  induction fields generalizing items found with
  | nil =>
    cases items with
    | nil =>
      rw [deal] at h
      split at h
      · obtain rfl := Except.ok.inj h
        exact List.forall_mem_nil _
      · cases h
    | cons v vs => cases h
  | cons f fields ih =>
    have hmore : ∀ {rest : Found}, rest.Checked fields → rest.Checked (f :: fields) :=
      fun hrest e he => (hrest e he).imp fun g hg => ⟨List.mem_cons_of_mem _ hg.1, hg.2⟩
    cases items with
    | nil =>
      rw [deal] at h
      split at h
      · cases h
      · split at h
        · cases h
        · exact hmore (ih h)
    | cons v vs =>
      rw [deal] at h
      obtain ⟨_, hcheck, h⟩ := Except.bind_eq_ok_iff.mp h
      obtain ⟨rest, hrest, h⟩ := Except.bind_eq_ok_iff.mp h
      obtain rfl := Except.ok.inj h
      exact List.forall_mem_cons.mpr ⟨⟨f, List.mem_cons_self, rfl, hcheck⟩, hmore (ih hrest)⟩

/-- What is found in a record passes. -/
theorem checked_of_readRecord {v : Reading} (h : readRecord fields v = .ok found) :
    found.Checked fields := by
  cases v with
  | obj members closed =>
    rw [readRecord] at h
    obtain ⟨found', hcollect, h⟩ := Except.bind_eq_ok_iff.mp h
    split at h
    · cases h
    · split at h
      · cases h
      · obtain rfl := Except.ok.inj h
        exact checked_of_collect (List.forall_mem_nil _) hcollect
  | arr items closed => exact checked_of_deal h
  | _ => cases h

theorem mem_of_find? {name : String} {v : Reading} (h : found.find? name = some v) :
    (name, v) ∈ found := by
  obtain ⟨before, after, rfl, -⟩ := List.lookup_eq_some_iff.mp h
  exact List.mem_append_right _ List.mem_cons_self

/-- Of the values of a nullable field there is one that passes, or none. -/
theorem Found.Checked.fills_nullable {α : Type} {read : Reader α} {spells : α → Reading → Prop}
    [Reads read spells] (h : found.Checked fields) (hdistinct : (fields.map Field.name).Nodup)
    {name : String} (hmem : .nullable name read ∈ fields) (hnull : ∀ b, ¬spells b .null) :
    (Slot.nullable name spells).Fills (found.find? name).toList := by
  cases hfound : found.find? name with
  | none => exact .absent trivial
  | some v =>
    obtain ⟨f, hf, hname, hcheck⟩ := h _ (mem_of_find? hfound)
    obtain rfl : f = .nullable name read := List.inj_on_of_nodup_map hdistinct hf hmem hname
    exact .once ((check_nullable_iff hnull).mp hcheck)

/-- A reader that takes the values of the fields reads the records that hold them. -/
theorem record_eq_ok_iff {α : Type} {a : α} {make : Found → Except Fault α}
    (h : List.Forall₂ Takes fields slots) (hdistinct : (slots.map Slot.name).Nodup)
    (hmake : ∀ found : Found, found.Checked fields → (make found = .ok a ↔ found.Fills slots))
    {v : Reading} : (readRecord fields v >>= make) = .ok a ↔ IsRecord slots v := by
  rw [Except.bind_eq_ok_iff, ← readRecord_iff h hdistinct]
  exact exists_congr fun found => and_congr_right fun hread =>
    hmake found (checked_of_readRecord hread)

/-- A record of two fields. -/
theorem pair_eq_ok_iff {α β γ : Type} {read : Reader α} {read' : Reader β}
    {spells : α → Reading → Prop} {spells' : β → Reading → Prop} [Reads read spells]
    [Reads read' spells'] {name name' : String} (hne : name ≠ name') {make : α → β → γ}
    {fst : γ → α} {snd : γ → β} (hfst : ∀ a b, fst (make a b) = a)
    (hsnd : ∀ a b, snd (make a b) = b) (hmake : ∀ c, make (fst c) (snd c) = c) {v : Reading}
    {c : γ} :
    (do
      let found ← readRecord [.required name read, .required name' read'] v
      return make (← found.get name read) (← found.get name' read')) = .ok c ↔
      IsRecord [.required name (spells (fst c)), .required name' (spells' (snd c))] v := by
  have hparts : ∀ a b, make a b = c ↔ a = fst c ∧ b = snd c := by
    intro a b
    constructor
    · rintro rfl
      exact ⟨(hfst a b).symm, (hsnd a b).symm⟩
    · rintro ⟨rfl, rfl⟩
      exact hmake c
  refine record_eq_ok_iff (.cons takes_required (.cons takes_required .nil)) ?_ fun found _ => ?_
  · simpa using hne
  · simp only [Except.bind_eq_ok_iff, get_eq_ok_iff, Except.pure_eq_ok_iff, hparts, existsAndEq,
      Found.fills_cons, Found.fills_nil, Slot.name_required, and_true]

/-! ## Records that are written -/

/-- Members are written for the fields in their order, but for those that may be absent. -/
inductive Writes : List Slot → List (String × Json) → Prop where
  | nil : Writes [] []
  | member {slot : Slot} {slots : List Slot} {v : Json} {members : List (String × Json)}
    (h : slot.spelled v.reading) (hrest : Writes slots members) :
    Writes (slot :: slots) ((slot.name, v) :: members)
  | absent {slot : Slot} {slots : List Slot} {members : List (String × Json)} (h : slot.absent)
    (hrest : Writes slots members) : Writes (slot :: slots) members

theorem Writes.names {members : List (String × Json)} (h : Writes slots members) :
    ∀ m ∈ memberReadings members, ∃ slot ∈ slots, m.1 = some slot.name := by
  induction h with
  | nil => exact List.forall_mem_nil _
  | @member slot _ _ _ _ _ ih =>
    refine List.forall_mem_cons.mpr ⟨⟨slot, List.mem_cons_self, rfl⟩, fun m hm => ?_⟩
    obtain ⟨other, hother, hname⟩ := ih m hm
    exact ⟨other, List.mem_cons_of_mem _ hother, hname⟩
  | absent _ _ ih =>
    intro m hm
    obtain ⟨other, hother, hname⟩ := ih m hm
    exact ⟨other, List.mem_cons_of_mem _ hother, hname⟩

theorem Writes.valuesOf_eq_nil {members : List (String × Json)} (h : Writes slots members)
    {name : String} (hnot : ∀ slot ∈ slots, slot.name ≠ name) :
    valuesOf name (memberReadings members) = [] := by
  rw [List.eq_nil_iff_forall_not_mem]
  intro v hv
  obtain ⟨slot, hslot, hname⟩ := h.names _ (mem_valuesOf.mp hv)
  exact hnot slot hslot (Option.some.inj hname).symm

theorem Writes.isObject {members : List (String × Json)} (h : Writes slots members)
    (hdistinct : (slots.map Slot.name).Nodup) : IsObject slots (memberReadings members) := by
  refine ⟨fun m hm => ?_, ?_, fun m hm hnot => ?_⟩
  · obtain ⟨slot, -, hname⟩ := h.names m hm
    rw [hname]
    rfl
  · induction h with
    | nil => exact List.forall_mem_nil _
    | @member slot slots v members hspelled hrest ih =>
      obtain ⟨hnew, hdistinct⟩ := List.nodup_cons.mp hdistinct
      have hne := Slot.name_ne_of_new hnew
      rw [memberReadings, memberReading]
      refine List.forall_mem_cons.mpr ⟨?_, fun other hother => ?_⟩
      · rw [valuesOf_cons_self, hrest.valuesOf_eq_nil hne]
        exact .once hspelled
      · rw [valuesOf_cons_of_ne (Ne.symm (hne other hother))]
        exact ih hdistinct other hother
    | @absent slot slots members habsent hrest ih =>
      obtain ⟨hnew, hdistinct⟩ := List.nodup_cons.mp hdistinct
      refine List.forall_mem_cons.mpr ⟨?_, ih hdistinct⟩
      rw [hrest.valuesOf_eq_nil (Slot.name_ne_of_new hnew)]
      exact .absent habsent
  · obtain ⟨slot, hslot, hname⟩ := h.names m hm
    exact absurd hname (hnot slot hslot)

/-- **What is written for a record reads as the record.** -/
theorem Writes.isRecord {members : List (String × Json)} (h : Writes slots members)
    (hdistinct : (slots.map Slot.name).Nodup) : IsRecord slots (Json.obj members).reading := by
  rw [reading]
  exact .object (h.isObject hdistinct)

end AccessControl.Json
