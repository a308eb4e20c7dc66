import AccessControl.Cached.Item
import AccessControl.Permission.Definition
import AccessControl.Permission.Grant
import AccessControl.Proofs.Json.Records
import AccessControl.Proofs.Text.Uuid
import AccessControl.Role
import AccessControl.Token.Kind

/-! # How values are spelled

Numbers, truth values and texts are spelled in one way, as far as what a text reads as goes.
Identifiers are spelled in any form of a UUID, sets of names in any order and with repeats, names of
a kind also as objects, and records as objects or as lists (`IsRecord`).  For each type this is said
once (`Spelled.Spells`), and it is what the type is read from; what is written for a value is one of
its spellings, so it reads back.
-/
namespace AccessControl.Json

/-- A type whose values are read from what spells them. -/
class Spelled (α : Type) [Form α] where
  /-- What a text that stands for a value reads as. -/
  Spells : α → Reading → Prop
  reads : Reads (Form.read (α := α)) Spells

attribute [instance] Spelled.reads

export Spelled (Spells)

/-! ## Numbers, texts and lists -/

/-- A number of sixty-four bits is spelled as itself. -/
def SpellsNumber (n : Int64) (v : Reading) : Prop := v = .int n.toInt

/-- A truth value is spelled as itself. -/
def SpellsTruth (b : Bool) (v : Reading) : Prop := v = .bool b

/-- A text is spelled as itself. -/
def SpellsText (s : String) (v : Reading) : Prop := v = .str (some s)

theorem readInt64_eq_ok_iff {v : Reading} {n : Int64} : readInt64 v = .ok n ↔ SpellsNumber n v := by
  rw [SpellsNumber]
  cases v with
  | int m =>
    rw [readInt64, Reading.int.injEq]
    split
    · rename_i hrange
      rw [Except.ok.injEq]
      constructor
      · rintro rfl
        exact (Int64.toInt_ofInt_of_le hrange.1 (Int.lt_add_one_of_le hrange.2)).symm
      · rintro rfl
        exact Int64.ofInt_toInt n
    · rename_i hrange
      refine iff_of_false nofun ?_
      rintro rfl
      exact hrange ⟨Int64.le_iff_toInt_le.mp (Int64.minValue_le n),
        Int64.le_iff_toInt_le.mp (Int64.le_maxValue n)⟩
  | _ => exact iff_of_false nofun nofun

instance : Reads readInt64 SpellsNumber := ⟨readInt64_eq_ok_iff⟩

instance : Reads readBool SpellsTruth where
  iff {v b} := by
    cases v with
    | bool b' => rw [readBool, Except.ok.injEq, SpellsTruth, Reading.bool.injEq]
    | _ => exact iff_of_false nofun nofun

theorem readString_eq_ok_iff {v : Reading} {s : String} :
    readString v = .ok s ↔ SpellsText s v := by
  cases v with
  | str s? =>
    cases s? with
    | none => exact iff_of_false nofun nofun
    | some s' =>
      rw [readString, Except.ok.injEq, SpellsText, Reading.str.injEq, Option.some.injEq]
  | _ => exact iff_of_false nofun nofun

instance : Reads readString SpellsText := ⟨readString_eq_ok_iff⟩

variable {α β : Type} {read : Reader α} {spells : α → Reading → Prop}

theorem map_eq_ok_iff {x : Except Fault α} {mk : α → β} {get : β → α} {b : β}
    (hget : ∀ a, get (mk a) = a) (hmk : ∀ b, mk (get b) = b) :
    x.map mk = .ok b ↔ x = .ok (get b) := by
  cases x with
  | error fault => exact iff_of_false nofun nofun
  | ok a =>
    show Except.ok (mk a) = Except.ok b ↔ _
    rw [Except.ok.injEq, Except.ok.injEq]
    constructor
    · rintro rfl
      exact (hget a).symm
    · rintro rfl
      exact hmk b

theorem readText_eq_ok_iff {parse : String → Option α} {v : Reading} {a : α} :
    readText parse v = .ok a ↔ ∃ s, SpellsText s v ∧ parse s = some a := by
  rw [readText, Except.bind_eq_ok_iff]
  refine exists_congr fun s => and_congr readString_eq_ok_iff ?_
  cases parse s with
  | none => exact iff_of_false nofun nofun
  | some a' =>
    show Except.ok a' = Except.ok a ↔ _
    rw [Except.ok.injEq, Option.some.injEq]

/-- A list is spelled item by item. -/
def SpellsList (spells : α → Reading → Prop) (as : List α) (v : Reading) : Prop :=
  ∃ items, v = .arr items true ∧ List.Forall₂ spells as items

theorem readItems_eq_ok_iff [Reads read spells] {items : List Reading} {closed : Bool}
    {as : List α} : readItems read items closed = .ok as ↔
      closed = true ∧ List.Forall₂ spells as items := by
  induction items generalizing as with
  | nil =>
    rw [readItems, List.forall₂_nil_right_iff]
    cases closed with
    | false => exact iff_of_false nofun nofun
    | true => exact ⟨fun h => ⟨rfl, (Except.ok.inj h).symm⟩, fun h => congrArg Except.ok h.2.symm⟩
  | cons v items ih =>
    rw [readItems, Except.bind_eq_ok_iff]
    constructor
    · rintro ⟨a, ha, h⟩
      obtain ⟨rest, hrest, h⟩ := Except.bind_eq_ok_iff.mp h
      obtain rfl := Except.ok.inj h
      obtain ⟨hclosed, hspelled⟩ := ih.mp hrest
      exact ⟨hclosed, .cons (Reads.iff.mp ha) hspelled⟩
    · rintro ⟨rfl, h⟩
      cases h with
      | cons ha hspelled =>
        refine ⟨_, Reads.iff.mpr ha, ?_⟩
        rw [ih.mpr ⟨rfl, hspelled⟩]
        rfl

instance [Reads read spells] : Reads (readList read) (SpellsList spells) where
  iff {v as} := by
    cases v with
    | arr items closed =>
      rw [readList, readItems_eq_ok_iff]
      constructor
      · rintro ⟨rfl, h⟩
        exact ⟨items, rfl, h⟩
      · rintro ⟨items', heq, h⟩
        obtain ⟨rfl, rfl⟩ := Reading.arr.inj heq
        exact ⟨rfl, h⟩
    | _ => exact iff_of_false nofun (by rintro ⟨items, heq, -⟩; cases heq)

/-- **A set of names is spelled as a list of them**, in any order and with repeats. -/
def SpellsNames (names : NameSet) (v : Reading) : Prop :=
  ∃ listed : List String, v = .arr (listed.map fun s => .str (some s)) true ∧
    ∀ name, name ∈ names ↔ name ∈ listed

theorem forall₂_spellsText_iff {as : List String} {items : List Reading} :
    List.Forall₂ SpellsText as items ↔ items = as.map fun s => .str (some s) := by
  induction as generalizing items with
  | nil => rw [List.forall₂_nil_left_iff, List.map_nil]
  | cons a as ih =>
    rw [List.forall₂_cons_left_iff, List.map_cons]
    constructor
    · rintro ⟨v, items, rfl, h, rfl⟩
      rw [ih.mp h]
    · rintro rfl
      exact ⟨_, _, rfl, ih.mpr rfl, rfl⟩

instance : Reads Cached.readNames SpellsNames where
  iff {v names} := by
    have hlist : ∀ listed, readList readString v = .ok listed ↔
        v = .arr (listed.map fun s => .str (some s)) true := by
      intro listed
      have hread : readList readString v = .ok listed ↔
          SpellsList SpellsText listed v := Reads.iff
      rw [hread, SpellsList]
      exact ⟨fun ⟨_, hv, h⟩ => forall₂_spellsText_iff.mp h ▸ hv,
        fun hv => ⟨_, hv, forall₂_spellsText_iff.mpr rfl⟩⟩
    have hset : ∀ listed : List String, SortedSet.ofList listed = names ↔
        ∀ name, name ∈ names ↔ name ∈ listed := by
      intro listed
      constructor
      · rintro rfl name
        exact SortedSet.mem_ofList
      · intro h
        exact SortedSet.ext fun name => SortedSet.mem_ofList.trans (h name).symm
    rw [Cached.readNames, SpellsNames]
    constructor
    · intro h
      cases hread : readList readString v with
      | error fault =>
        rw [hread] at h
        cases h
      | ok listed =>
        rw [hread] at h
        exact ⟨listed, (hlist listed).mp hread, (hset listed).mp (Except.ok.inj h)⟩
    · rintro ⟨listed, hv, h⟩
      rw [(hlist listed).mpr hv]
      exact congrArg Except.ok ((hset listed).mpr h)

/-! ## Names of a kind -/

/-- A name of a kind is spelled as a text, or as an object that maps it to `null`. -/
def SpellsName (name : String) (v : Reading) : Prop :=
  SpellsText name v ∨ v = .obj [(some name, .null)] true

theorem spellsName_str_iff {name name' : String} :
    SpellsName name' (.str (some name)) ↔ name' = name := by
  constructor
  · rintro (heq | heq)
    · exact (Option.some.inj (Reading.str.inj heq)).symm
    · cases heq
  · rintro rfl
    exact .inl rfl

theorem spellsName_obj_iff {name name' : String} :
    SpellsName name' (.obj [(some name, .null)] true) ↔ name' = name := by
  constructor
  · rintro (heq | heq)
    · cases heq
    · cases heq
      rfl
  · rintro rfl
    exact .inr rfl

/-- Nothing spells two names. -/
theorem SpellsName.unique {name name' : String} {v : Reading} (h : SpellsName name v)
    (h' : SpellsName name' v) : name = name' := by
  rcases h' with rfl | rfl
  · exact spellsName_str_iff.mp h
  · exact spellsName_obj_iff.mp h

theorem readName_eq_ok_iff {names : List (String × α)} {v : Reading} {a : α} :
    readName names v = .ok a ↔ ∃ name, names.lookup name = some a ∧ SpellsName name v := by
  rw [readName.eq_def]
  split
  · rename_i name
    simp only [spellsName_str_iff, exists_eq_right]
    cases names.lookup name with
    | none => exact iff_of_false nofun nofun
    | some b => rw [Except.ok.injEq, Option.some.injEq]
  · rename_i name
    simp only [spellsName_obj_iff, exists_eq_right]
    cases names.lookup name with
    | none => exact iff_of_false nofun nofun
    | some b => rw [Except.ok.injEq, Option.some.injEq]
  · refine iff_of_false nofun ?_
    rintro ⟨name, -, heq | heq⟩ <;> cases heq
  · rename_i hstr hobj _
    refine iff_of_false nofun ?_
    rintro ⟨name, -, rfl | rfl⟩
    · exact hstr name rfl
    · exact hobj name rfl

/-- The names of the members of a kind tell them apart. -/
theorem lookup_named {f : α → String} (hf : Function.Injective f) {all : List α} {name : String}
    {a : α} : (all.map fun b => (f b, b)).lookup name = some a ↔ a ∈ all ∧ name = f a := by
  induction all with
  | nil => exact iff_of_false nofun fun h => absurd h.1 List.not_mem_nil
  | cons b all ih =>
    rw [List.map_cons, List.lookup_cons, List.mem_cons]
    by_cases hname : name = f b
    · rw [hname, beq_self_eq_true, Option.some.injEq]
      constructor
      · rintro rfl
        exact ⟨.inl rfl, rfl⟩
      · rintro ⟨-, h⟩
        exact hf h
    · rw [beq_false_of_ne hname]
      refine ih.trans (and_congr_left fun h => ?_)
      rw [or_iff_right]
      rintro rfl
      exact hname h

/-- A member of a kind is spelled by its name. -/
theorem reads_named {f : α → String} (hf : Function.Injective f) {all : List α}
    (hall : ∀ a, a ∈ all) :
    Reads (readName (all.map fun b => (f b, b))) fun a => SpellsName (f a) where
  iff {v a} := by
    rw [readName_eq_ok_iff]
    constructor
    · rintro ⟨name, hlookup, h⟩
      obtain ⟨-, rfl⟩ := (lookup_named hf).mp hlookup
      exact h
    · intro h
      exact ⟨f a, (lookup_named hf).mpr ⟨hall a, rfl⟩, h⟩

/-! ## Identities and labels -/

/-- **An identifier is spelled in any of its forms.** -/
def SpellsUuid (u : Uuid) (v : Reading) : Prop := ∃ s, SpellsText s v ∧ u.Spelled s.toList

theorem readUuid_eq_ok_iff {v : Reading} {u : Uuid} :
    readText Uuid.ofText? v = .ok u ↔ SpellsUuid u v :=
  readText_eq_ok_iff.trans (exists_congr fun _ => and_congr_right fun _ => Uuid.ofText?_eq_some_iff)

instance : Spelled UserId where
  Spells u := SpellsNumber u.number
  reads := ⟨(map_eq_ok_iff (fun _ => rfl) fun _ => rfl).trans readInt64_eq_ok_iff⟩

instance : Spelled RoleId where
  Spells r := SpellsNumber r.number
  reads := ⟨(map_eq_ok_iff (fun _ => rfl) fun _ => rfl).trans readInt64_eq_ok_iff⟩

instance : Spelled SecurityStamp where
  Spells s := SpellsUuid s.uuid
  reads := ⟨(map_eq_ok_iff (fun _ => rfl) fun _ => rfl).trans readUuid_eq_ok_iff⟩

instance : Spelled TokenKey where
  Spells k := SpellsUuid k.uuid
  reads := ⟨(map_eq_ok_iff (fun _ => rfl) fun _ => rfl).trans readUuid_eq_ok_iff⟩

instance : Spelled NonBlank where
  Spells l := SpellsText l.text
  reads := ⟨(map_eq_ok_iff (fun _ => rfl) fun _ => rfl).trans readString_eq_ok_iff⟩

instance : Spelled Token.Kind where
  Spells k := SpellsName k.name
  reads := by
    have hname : Function.Injective Token.Kind.name := by
      intro a b h
      cases a <;> cases b <;> first | rfl | exact absurd h (by decide)
    have hall : ∀ k : Token.Kind, k ∈ [.access, .refresh] := by
      intro k
      cases k <;> decide
    exact reads_named hname hall

instance : Spelled RotationReason where
  Spells r := SpellsName r.name
  reads := by
    have hname : Function.Injective RotationReason.name := by
      intro a b h
      cases a <;> cases b <;> first | rfl | exact absurd h (by decide)
    have hall : ∀ r : RotationReason, r ∈ RotationReason.all := by
      intro r
      cases r <;> decide
    exact reads_named hname hall

/-! ## Records -/

instance : Spelled Cached.UserRoles where
  Spells i := IsRecord [.required "user_id" (Spells i.userId),
    .required "role_ids" (SpellsList Spells i.roleIds)]
  reads := ⟨pair_eq_ok_iff (by decide) (fun _ _ => rfl) (fun _ _ => rfl) fun _ => rfl⟩

instance : Spelled Cached.UserPermissions where
  Spells i := IsRecord [.required "user_id" (Spells i.userId),
    .required "granted_user_permissions" (SpellsNames i.granted),
    .required "prohibited_user_permissions" (SpellsNames i.prohibited)]
  reads := by
    constructor
    rintro v ⟨user, granted, prohibited⟩
    refine record_eq_ok_iff
      (.cons takes_required (.cons takes_required (.cons takes_required .nil)))
      (show ["user_id", "granted_user_permissions", "prohibited_user_permissions"].Nodup by decide)
      fun found _ => ?_
    simp only [Except.bind_eq_ok_iff, get_eq_ok_iff, Except.pure_eq_ok_iff,
      Cached.UserPermissions.mk.injEq, existsAndEq, Found.fills_cons, Found.fills_nil,
      Slot.name_required, and_true]

instance : Spelled Cached.RolePermissions where
  Spells i := IsRecord [.required "role_id" (Spells i.roleId),
    .required "granted_permissions" (SpellsNames i.granted)]
  reads := ⟨pair_eq_ok_iff (by decide) (fun _ _ => rfl) (fun _ _ => rfl) fun _ => rfl⟩

instance : Spelled Cached.Stamp where
  Spells i := IsRecord [.required "user_id" (Spells i.userId),
    .required "security_stamp" (Spells i.stamp)]
  reads := ⟨pair_eq_ok_iff (by decide) (fun _ _ => rfl) (fun _ _ => rfl) fun _ => rfl⟩

instance : Spelled Cached.LiveToken where
  Spells i := IsRecord [.required "user_id" (Spells i.userId),
    .required "token_key" (Spells i.key)]
  reads := ⟨pair_eq_ok_iff (by decide) (fun _ _ => rfl) (fun _ _ => rfl) fun _ => rfl⟩

instance : Spelled Role where
  Spells r := IsRecord [.required "role_id" (Spells r.id),
    .required "name" (SpellsText r.name),
    .required "display_name" (SpellsText r.displayName),
    .required "is_privileged" (SpellsTruth r.isPrivileged)]
  reads := by
    constructor
    rintro v ⟨id, name, displayName, isPrivileged⟩
    refine record_eq_ok_iff (.cons takes_required (.cons takes_required (.cons takes_required
      (.cons takes_required .nil))))
      (show ["role_id", "name", "display_name", "is_privileged"].Nodup by decide) fun found _ => ?_
    simp only [Except.bind_eq_ok_iff, get_eq_ok_iff, Except.pure_eq_ok_iff, Role.mk.injEq,
      existsAndEq, Found.fills_cons, Found.fills_nil, Slot.name_required, and_true]

instance : Spelled Grant where
  Spells g := IsRecord [.required "permission_name" (SpellsText g.permission),
    .required "is_granted" (SpellsTruth g.isGranted)]
  reads := ⟨pair_eq_ok_iff (by decide) (fun _ _ => rfl) (fun _ _ => rfl) fun _ => rfl⟩

instance : Spelled PermissionDefinition where
  Spells d := IsRecord [.required "name" (Spells d.name),
    .required "display_name" (Spells d.displayName), .required "group" (Spells d.group)]
  reads := by
    constructor
    rintro v ⟨name, displayName, group⟩
    refine record_eq_ok_iff
      (.cons takes_required (.cons takes_required (.cons takes_required .nil)))
      (show ["name", "display_name", "group"].Nodup by decide) fun found _ => ?_
    simp only [Except.bind_eq_ok_iff, get_eq_ok_iff, Except.pure_eq_ok_iff,
      PermissionDefinition.mk.injEq, existsAndEq, Found.fills_cons, Found.fills_nil,
      Slot.name_required, and_true]

/-! ## Owners of grants -/

/-- The name of a kind of owner. -/
def ownerKind (isRole : Bool) : String := if isRole then "role" else "user"

/-- Whether an owner is a role. -/
def ownerIsRole : GrantOwner → Bool
  | .role _ => true
  | .user _ => false

/-- The number of an owner. -/
def ownerNumber : GrantOwner → Int64
  | .role id => id.number
  | .user id => id.number

/-- The fields of an owner, its kind being spelled in some way. -/
def ownerSlots (spells : Bool → Reading → Prop) (o : GrantOwner) : List Slot :=
  [.required "kind" (spells (ownerIsRole o)), .required "id" (SpellsNumber (ownerNumber o))]

/-- **An owner is spelled as a record.**  In an object the kind may be spelled as any name of a
kind, in a list only as a text. -/
inductive SpellsOwner (o : GrantOwner) : Reading → Prop where
  | object {members : Members}
    (h : IsObject (ownerSlots (fun b => SpellsName (ownerKind b)) o) members) :
    SpellsOwner o (.obj members true)
  | list {items : List Reading}
    (h : IsList (ownerSlots (fun b => SpellsText (ownerKind b)) o) items) :
    SpellsOwner o (.arr items true)

theorem ownerKind_injective : Function.Injective ownerKind := by
  intro a b h
  cases a <;> cases b <;> first | rfl | exact absurd h (by decide)

/-- The kinds of owner by name. -/
def ownerKinds : List (String × Bool) := [true, false].map fun b => (ownerKind b, b)

theorem lookup_ownerKinds {name : String} {isRole : Bool} :
    ownerKinds.lookup name = some isRole ↔ name = ownerKind isRole := by
  refine (lookup_named ownerKind_injective).trans (and_iff_right ?_)
  cases isRole <;> decide

instance : Reads (readName ownerKinds) fun b => SpellsName (ownerKind b) :=
  reads_named ownerKind_injective fun b => by cases b <;> decide

instance : Reads (readText (List.lookup · ownerKinds)) fun b => SpellsText (ownerKind b) where
  iff {v b} := by
    rw [readText_eq_ok_iff]
    constructor
    · rintro ⟨name, h, hlookup⟩
      obtain rfl := lookup_ownerKinds.mp hlookup
      exact h
    · intro h
      exact ⟨ownerKind b, h, lookup_ownerKinds.mpr rfl⟩

theorem readOwner_eq_ok_iff (kind : Reader Bool) {spells : Bool → Reading → Prop}
    [Reads kind spells] {v : Reading} {o : GrantOwner} :
    (do
      let found ← readRecord [.required "kind" kind, .required "id" readInt64] v
      let id ← found.get "id" readInt64
      return if ← found.get "kind" kind then GrantOwner.role ⟨id⟩ else .user ⟨id⟩) = .ok o ↔
      IsRecord (ownerSlots spells o) v := by
  have hparts : ∀ (isRole : Bool) (id : Int64),
      (if isRole = true then GrantOwner.role ⟨id⟩ else .user ⟨id⟩) = o ↔
        isRole = ownerIsRole o ∧ id = ownerNumber o := by
    rintro (_ | _) id <;> rcases o with ⟨⟨n⟩⟩ | ⟨⟨n⟩⟩ <;> simp [ownerIsRole, ownerNumber]
  refine record_eq_ok_iff (.cons takes_required (.cons takes_required .nil))
    (show ["kind", "id"].Nodup by decide) fun found _ => ?_
  simp only [Except.bind_eq_ok_iff, get_eq_ok_iff, Except.pure_eq_ok_iff, hparts, existsAndEq,
    Found.fills_cons, Found.fills_nil, Slot.name_required, and_true]
  exact and_comm

instance : Spelled GrantOwner where
  Spells := SpellsOwner
  reads := by
    constructor
    intro v o
    cases v with
    | arr items closed =>
      refine (readOwner_eq_ok_iff (readText (List.lookup · ownerKinds))).trans ?_
      constructor
      · rintro ⟨⟩
        exact .list ‹_›
      · rintro ⟨⟩
        exact .list ‹_›
    | obj members closed =>
      refine (readOwner_eq_ok_iff (readName ownerKinds)).trans ?_
      constructor
      · rintro ⟨⟩
        exact .object ‹_›
      · rintro ⟨⟩
        exact .object ‹_›
    | _ => exact iff_of_false nofun nofun

instance : Spelled OwnedGrant where
  Spells r := IsRecord [.required "subject" (Spells r.owner), .required "grant" (Spells r.grant)]
  reads := ⟨pair_eq_ok_iff (by decide) (fun _ _ => rfl) (fun _ _ => rfl) fun _ => rfl⟩

/-! ## What is written is one of the spellings -/

theorem read_of_spells [Form α] [Spelled α] {a : α} {v : Reading} (h : Spells a v) :
    Form.read v = .ok a := Spelled.reads.iff.mpr h

theorem spellsList_reading {toJson : α → Json} {as : List α}
    (h : ∀ a ∈ as, spells a (toJson a).reading) :
    SpellsList spells as (Json.arr (as.map toJson)).reading := by
  rw [reading]
  refine ⟨_, rfl, ?_⟩
  induction as with
  | nil => exact .nil
  | cons a as ih =>
    obtain ⟨ha, has⟩ := List.forall_mem_cons.mp h
    exact .cons ha (ih has)

theorem itemReadings_map_str (names : List String) :
    itemReadings (names.map Json.str) = names.map fun s => .str (some s) := by
  induction names with
  | nil => rfl
  | cons s names ih => rw [List.map_cons, itemReadings, ih, reading, List.map_cons]

theorem spellsNames_reading (names : NameSet) :
    SpellsNames names (Cached.namesJson names).reading := by
  refine ⟨names.toList, ?_, fun _ => Iff.rfl⟩
  rw [Cached.namesJson, reading, itemReadings_map_str]

theorem spellsUuid_reading (u : Uuid) : SpellsUuid u (Json.str u.text).reading :=
  ⟨u.text, rfl, Uuid.ofText?_eq_some_iff.mp (Uuid.ofText?_text u)⟩

theorem small_namesJson (names : NameSet) : (Cached.namesJson names).Small := by
  rw [Cached.namesJson, Small, areSmall_iff]
  intro v hv
  obtain ⟨name, -, rfl⟩ := List.mem_map.mp hv
  trivial

instance : Faithful UserId := ⟨fun u => small_int64 u.number, fun _ => read_of_spells rfl⟩

instance : Faithful RoleId := ⟨fun r => small_int64 r.number, fun _ => read_of_spells rfl⟩

instance : Faithful SecurityStamp :=
  ⟨fun _ => trivial, fun s => read_of_spells (spellsUuid_reading s.uuid)⟩

instance : Faithful TokenKey :=
  ⟨fun _ => trivial, fun k => read_of_spells (spellsUuid_reading k.uuid)⟩

instance : Faithful NonBlank := ⟨fun _ => trivial, fun _ => read_of_spells rfl⟩

instance : Faithful Token.Kind := ⟨fun _ => trivial, fun _ => read_of_spells (Or.inl rfl)⟩

instance : Faithful RotationReason := ⟨fun _ => trivial, fun _ => read_of_spells (Or.inl rfl)⟩

instance : Faithful Cached.UserRoles where
  small i := by
    refine ⟨small_int64 i.userId.number, ?_, trivial⟩
    rw [MemberSmall, Small, areSmall_iff]
    intro v hv
    obtain ⟨r, -, rfl⟩ := List.mem_map.mp hv
    exact small_int64 r.number
  read_reading i := by
    have hroles : SpellsList Spells i.roleIds (Json.arr (i.roleIds.map Form.toJson)).reading :=
      spellsList_reading fun _ _ => rfl
    exact read_of_spells (Writes.isRecord (.member rfl (.member hroles .nil))
      (show ["user_id", "role_ids"].Nodup by decide))

instance : Faithful Cached.UserPermissions where
  small i :=
    ⟨small_int64 i.userId.number, small_namesJson i.granted, small_namesJson i.prohibited, trivial⟩
  read_reading i := by
    have hgranted := spellsNames_reading i.granted
    have hprohibited := spellsNames_reading i.prohibited
    exact read_of_spells (Writes.isRecord
      (.member rfl (.member hgranted (.member hprohibited .nil)))
      (show ["user_id", "granted_user_permissions", "prohibited_user_permissions"].Nodup by decide))

instance : Faithful Cached.RolePermissions where
  small i := ⟨small_int64 i.roleId.number, small_namesJson i.granted, trivial⟩
  read_reading i :=
    read_of_spells (Writes.isRecord (.member rfl (.member (spellsNames_reading i.granted) .nil))
      (show ["role_id", "granted_permissions"].Nodup by decide))

instance : Faithful Cached.Stamp where
  small i := ⟨small_int64 i.userId.number, trivial, trivial⟩
  read_reading i :=
    read_of_spells (Writes.isRecord (.member rfl (.member (spellsUuid_reading i.stamp.uuid) .nil))
      (show ["user_id", "security_stamp"].Nodup by decide))

instance : Faithful Cached.LiveToken where
  small i := ⟨small_int64 i.userId.number, trivial, trivial⟩
  read_reading i :=
    read_of_spells (Writes.isRecord (.member rfl (.member (spellsUuid_reading i.key.uuid) .nil))
      (show ["user_id", "token_key"].Nodup by decide))

instance : Faithful Role where
  small r := ⟨small_int64 r.id.number, trivial, trivial, trivial, trivial⟩
  read_reading r :=
    read_of_spells (Writes.isRecord
      (.member rfl (.member rfl (.member rfl (.member rfl .nil))))
      (show ["role_id", "name", "display_name", "is_privileged"].Nodup by decide))

instance : Faithful Grant where
  small _ := ⟨trivial, trivial, trivial⟩
  read_reading _ :=
    read_of_spells (Writes.isRecord (.member rfl (.member rfl .nil))
      (show ["permission_name", "is_granted"].Nodup by decide))

instance : Faithful PermissionDefinition where
  small _ := ⟨trivial, trivial, trivial, trivial⟩
  read_reading _ :=
    read_of_spells (Writes.isRecord (.member rfl (.member rfl (.member rfl .nil)))
      (show ["name", "display_name", "group"].Nodup by decide))

theorem spellsOwner_reading (o : GrantOwner) : SpellsOwner o (Form.toJson o).reading := by
  have hdistinct : ["kind", "id"].Nodup := by decide
  cases o with
  | role id =>
    exact .object (Writes.isObject (.member (Or.inl rfl) (.member rfl .nil)) hdistinct)
  | user id =>
    exact .object (Writes.isObject (.member (Or.inl rfl) (.member rfl .nil)) hdistinct)

instance : Faithful GrantOwner where
  small o := by
    cases o with
    | role id => exact ⟨trivial, small_int64 id.number, trivial⟩
    | user id => exact ⟨trivial, small_int64 id.number, trivial⟩
  read_reading o := read_of_spells (spellsOwner_reading o)

instance : Faithful OwnedGrant where
  small r := ⟨Faithful.small r.owner, ⟨trivial, trivial, trivial⟩, trivial⟩
  read_reading r := by
    have hgrant : Spells r.grant (Form.toJson r.grant).reading :=
      Spelled.reads.iff.mp (Faithful.read_reading r.grant)
    exact read_of_spells (Writes.isRecord
      (.member (spellsOwner_reading r.owner) (.member hgrant .nil))
      (show ["subject", "grant"].Nodup by decide))

end AccessControl.Json
