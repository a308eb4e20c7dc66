/-! # Finite sets in ascending order

A set of texts or of numbers is listed in ascending order and each member once,
so two sets with the same members are the same value (`ext`) and the listing of
a set never depends on how the set was built.  Everything below keeps that order
(`ascending`); membership is membership in the listing.
-/
namespace AccessControl

/-- A finite set, as the list of its members in strictly ascending order. -/
structure SortedSet (α : Type) [LT α] where
  /-- The members, smallest first. -/
  toList : List α
  /-- Each member is below every later one. -/
  ascending : toList.Pairwise (· < ·)
  deriving DecidableEq, Repr

namespace SortedSet
variable {α : Type} [LT α]

instance : Membership α (SortedSet α) := ⟨fun s x => x ∈ s.toList⟩

theorem mem_def {s : SortedSet α} {x : α} : x ∈ s ↔ x ∈ s.toList := Iff.rfl

instance [DecidableEq α] (s : SortedSet α) (x : α) : Decidable (x ∈ s) :=
  inferInstanceAs (Decidable (x ∈ s.toList))

/-- The set without members. -/
def empty : SortedSet α := ⟨[], .nil⟩

instance : EmptyCollection (SortedSet α) := ⟨empty⟩
instance : Inhabited (SortedSet α) := ⟨empty⟩

@[simp] theorem not_mem_empty (x : α) : x ∉ (∅ : SortedSet α) := List.not_mem_nil

/-- Whether a value is a member. -/
def contains [DecidableEq α] (s : SortedSet α) (x : α) : Bool := decide (x ∈ s)

@[simp] theorem contains_iff [DecidableEq α] {s : SortedSet α} {x : α} :
    s.contains x = true ↔ x ∈ s := decide_eq_true_iff

/-- Whether the set has no member. -/
def isEmpty (s : SortedSet α) : Bool := s.toList.isEmpty

/-- The members that pass a test. -/
def filter (p : α → Bool) (s : SortedSet α) : SortedSet α :=
  ⟨s.toList.filter p, s.ascending.filter p⟩

@[simp] theorem mem_filter {p : α → Bool} {s : SortedSet α} {x : α} :
    x ∈ s.filter p ↔ x ∈ s ∧ p x = true := List.mem_filter

/-! ## Insertion -/

section Insertion
variable [DecidableLT α]

/-- Puts a value at its place in an ascending list, unless it is there already. -/
def place (x : α) : List α → List α
  | [] => [x]
  | y :: ys => if x < y then x :: y :: ys else if y < x then y :: place x ys else y :: ys

variable [LE α] [Std.IsLinearOrder α] [Std.LawfulOrderLT α]

omit [DecidableLT α] in
theorem eq_of_not_lt {x y : α} (h : ¬ x < y) (h' : ¬ y < x) : x = y :=
  Std.le_antisymm (Std.not_lt.mp h') (Std.not_lt.mp h)

theorem mem_place {x z : α} {l : List α} : z ∈ place x l ↔ z = x ∨ z ∈ l := by
  induction l with
  | nil => simp [place]
  | cons y ys ih =>
    rw [place]
    split
    · simp
    · split
      · simp only [List.mem_cons, ih]
        exact or_left_comm
      · rename_i h h'
        obtain rfl := eq_of_not_lt h h'
        simp

theorem place_ascending {x : α} {l : List α} (h : l.Pairwise (· < ·)) :
    (place x l).Pairwise (· < ·) := by
  induction l with
  | nil => simp [place]
  | cons y ys ih =>
    obtain ⟨hy, hys⟩ := List.pairwise_cons.mp h
    rw [place]
    split
    · rename_i hxy
      refine List.pairwise_cons.mpr ⟨fun z hz => ?_, h⟩
      rcases List.mem_cons.mp hz with rfl | hz
      · exact hxy
      · exact Std.lt_trans hxy (hy z hz)
    · split
      · rename_i hyx
        refine List.pairwise_cons.mpr ⟨fun z hz => ?_, ih hys⟩
        rcases mem_place.mp hz with rfl | hz
        · exact hyx
        · exact hy z hz
      · exact h

/-- The set with one value added. -/
def insert (x : α) (s : SortedSet α) : SortedSet α :=
  ⟨place x s.toList, place_ascending s.ascending⟩

@[simp] theorem mem_insert {x z : α} {s : SortedSet α} : z ∈ s.insert x ↔ z = x ∨ z ∈ s :=
  mem_place

/-- The set of the values of a list, in any order and with repeats. -/
def ofList (l : List α) : SortedSet α := l.foldr insert ∅

@[simp] theorem mem_ofList {l : List α} {x : α} : x ∈ ofList l ↔ x ∈ l := by
  induction l with
  | nil => simp [ofList]
  | cons y ys ih => simpa [ofList] using or_congr_right ih

/-- The members of either set. -/
def union (s t : SortedSet α) : SortedSet α := s.toList.foldr insert t

instance : Union (SortedSet α) := ⟨union⟩

@[simp] theorem mem_union {s t : SortedSet α} {x : α} : x ∈ s ∪ t ↔ x ∈ s ∨ x ∈ t := by
  have h : ∀ l : List α, x ∈ l.foldr insert t ↔ x ∈ l ∨ x ∈ t := by
    intro l
    induction l with
    | nil => simp
    | cons y ys ih => simp [ih, or_assoc]
  exact h s.toList

end Insertion

/-! ## A set is its members -/

section Extensionality
variable [LE α] [Std.IsLinearOrder α] [Std.LawfulOrderLT α]

theorem head_eq_of_mem_iff {x y : α} {xs ys : List α}
    (hx : (x :: xs).Pairwise (· < ·)) (hy : (y :: ys).Pairwise (· < ·))
    (h : ∀ z, z ∈ x :: xs ↔ z ∈ y :: ys) : x = y := by
  rcases List.mem_cons.mp ((h x).mp List.mem_cons_self) with hxy | hxy
  · exact hxy
  rcases List.mem_cons.mp ((h y).mpr List.mem_cons_self) with hyx | hyx
  · exact hyx.symm
  exact absurd (Std.lt_trans ((List.pairwise_cons.mp hy).1 x hxy)
    ((List.pairwise_cons.mp hx).1 y hyx)) Std.lt_irrefl

theorem eq_of_mem_iff {l m : List α} (hl : l.Pairwise (· < ·)) (hm : m.Pairwise (· < ·))
    (h : ∀ z, z ∈ l ↔ z ∈ m) : l = m := by
  induction l generalizing m with
  | nil =>
    cases m with
    | nil => rfl
    | cons y ys => exact absurd ((h y).mpr List.mem_cons_self) List.not_mem_nil
  | cons x xs ih =>
    cases m with
    | nil => exact absurd ((h x).mp List.mem_cons_self) List.not_mem_nil
    | cons y ys =>
      obtain rfl := head_eq_of_mem_iff hl hm h
      obtain ⟨hx, hxs⟩ := List.pairwise_cons.mp hl
      obtain ⟨hy, hys⟩ := List.pairwise_cons.mp hm
      refine congrArg (x :: ·) (ih hxs hys fun z => ?_)
      have hz := h z
      constructor
      · intro hzx
        rcases List.mem_cons.mp (hz.mp (List.mem_cons_of_mem x hzx)) with rfl | hzy
        · exact absurd (hx z hzx) Std.lt_irrefl
        · exact hzy
      · intro hzy
        rcases List.mem_cons.mp (hz.mpr (List.mem_cons_of_mem x hzy)) with rfl | hzx
        · exact absurd (hy z hzy) Std.lt_irrefl
        · exact hzx

/-- **Sets with the same members are equal.** -/
@[ext] theorem ext {s t : SortedSet α} (h : ∀ x, x ∈ s ↔ x ∈ t) : s = t := by
  cases s with
  | mk l hl =>
    cases t with
    | mk m hm =>
      obtain rfl := eq_of_mem_iff hl hm h
      rfl

/-- Listing a set and collecting the list again gives the set back. -/
theorem ofList_toList [DecidableLT α] (s : SortedSet α) : ofList s.toList = s :=
  ext fun _ => mem_ofList

end Extensionality

end SortedSet

/-- A set of permission names, listed by code point. -/
abbrev NameSet : Type := SortedSet String

end AccessControl
