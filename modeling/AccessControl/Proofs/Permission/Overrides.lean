import AccessControl.Permission.Effective

/-! # Single decisions and the whole set

The permissions of a user are decided on one by one, stopping as soon as the answer is known
(`Overrides.decides`), or gathered into one set (`Overrides.effective`).  The two tell the same as
long as nothing that is given is prohibited too (`Overrides.Apart`): a prohibition is looked at
first in a decision, while whatever is given is in the set without a look at the prohibitions.
Whichever way overrides are made, by rows or by sets, they are apart, since what is prohibited is
taken out of what is given.
-/
namespace AccessControl.Overrides
variable {o : Overrides} {rows : List Grant} {granted prohibited : NameSet} {roles : List NameSet}
  {name : String}

/-- Nothing that is given is prohibited. -/
def Apart (o : Overrides) : Prop := ∀ name ∈ o.granted, name ∉ o.prohibited

theorem apart_ofSets : (ofSets granted prohibited).Apart :=
  fun _ hname => (mem_granted_ofSets.mp hname).2

theorem apart_ofRows : (ofRows rows).Apart := by
  intro name hname hno
  exact (mem_granted_ofRows.mp hname).2 (mem_prohibited_ofRows.mp hno)

/-- Nothing is to be taken out of what is given if nothing of it is prohibited. -/
theorem ofSets_eq_self (h : o.Apart) : ofSets o.granted o.prohibited = o := by
  have hgranted : (ofSets o.granted o.prohibited).granted = o.granted := by
    apply SortedSet.ext
    intro name
    rw [mem_granted_ofSets]
    exact ⟨And.left, fun hname => ⟨hname, h name hname⟩⟩
  exact congrArg (fun granted => Overrides.mk granted o.prohibited) hgranted

/-- Taking the prohibited names out once more changes nothing. -/
theorem ofSets_ofRows (rows : List Grant) :
    ofSets (ofRows rows).granted (ofRows rows).prohibited = ofRows rows :=
  ofSets_eq_self apart_ofRows

/-- What is prohibited a user has not, whatever the roles hold. -/
theorem not_mem_effective_of_prohibited (h : o.Apart) (hname : name ∈ o.prohibited) :
    name ∉ o.effective roles := by
  rw [mem_effective]
  rintro (hgiven | ⟨hallowed, -⟩)
  · exact h name hgiven hname
  · exact hallowed hname

theorem mem_effective_of_granted (hname : name ∈ o.granted) : name ∈ o.effective roles :=
  mem_effective.mpr (.inl hname)

/-- **Deciding on one permission is asking for it in the permissions of the user.** -/
theorem decides_iff (h : o.Apart) :
    o.decides name roles = true ↔ name ∈ o.effective roles := by
  rw [decides]
  -- A prohibition is looked at first; it cannot meet a permission that is given.
  split
  · rename_i hno
    exact iff_of_false Bool.false_ne_true
      (not_mem_effective_of_prohibited h (SortedSet.contains_iff.mp hno))
  · rename_i hyes
    have hallowed : name ∉ o.prohibited := fun hno => hyes (SortedSet.contains_iff.mpr hno)
    split
    · rename_i hgiven
      exact iff_of_true rfl (mem_effective_of_granted (SortedSet.contains_iff.mp hgiven))
    · rename_i hnotgiven
      have hgranted : name ∉ o.granted := fun hgiven =>
        hnotgiven (SortedSet.contains_iff.mpr hgiven)
      rw [mem_effective, or_iff_right hgranted, and_iff_right hallowed, List.any_eq_true]
      simp only [SortedSet.contains_iff]

/-! ## What holds of overrides, whichever way they are made -/

/-- **Overrides that separate what is given from what is forbidden**, and the permissions of a user
with roles: single decisions tell the same as the whole set, which has whatever is given and is
not forbidden, and nothing that is forbidden. -/
structure Separates (o : Overrides) (given forbidden : String → Prop) (roles : List NameSet) :
    Prop where
  granted_iff : ∀ name, name ∈ o.granted ↔ given name ∧ ¬forbidden name
  prohibited_iff : ∀ name, name ∈ o.prohibited ↔ forbidden name
  apart : ∀ name, ¬(name ∈ o.granted ∧ name ∈ o.prohibited)
  decides_eq : ∀ name, o.decides name roles = (o.effective roles).contains name
  granted_held : ∀ name ∈ o.granted, name ∈ o.effective roles
  prohibited_not_held : ∀ name ∈ o.prohibited, name ∉ o.effective roles

theorem Apart.separates {given forbidden : String → Prop} (h : o.Apart)
    (hgranted : ∀ name, name ∈ o.granted ↔ given name ∧ ¬forbidden name)
    (hprohibited : ∀ name, name ∈ o.prohibited ↔ forbidden name) :
    o.Separates given forbidden roles where
  granted_iff := hgranted
  prohibited_iff := hprohibited
  apart := fun name hboth => h name hboth.1 hboth.2
  decides_eq name := by
    rw [Bool.eq_iff_iff, SortedSet.contains_iff]
    exact decides_iff h
  granted_held _ hname := mem_effective_of_granted hname
  prohibited_not_held _ hname := not_mem_effective_of_prohibited h hname

/-- **Single decisions agree with the whole set**, for overrides made by any rows and for overrides
made by any sets, overlapping or not, and whatever the roles hold; and overrides made by rows are
made again by their own sets. -/
theorem single_decisions_agree (rows : List Grant) (granted prohibited : NameSet)
    (roles : List NameSet) :
    (ofRows rows).Separates (fun name => ⟨name, true⟩ ∈ rows) (fun name => ⟨name, false⟩ ∈ rows)
        roles ∧
      (ofSets granted prohibited).Separates (· ∈ granted) (· ∈ prohibited) roles ∧
      ofSets (ofRows rows).granted (ofRows rows).prohibited = ofRows rows := by
  refine ⟨apart_ofRows.separates (fun _ => mem_granted_ofRows) fun _ => mem_prohibited_ofRows, ?_,
    ofSets_ofRows rows⟩
  exact apart_ofSets.separates (fun _ => mem_granted_ofSets) fun _ => Iff.rfl

end AccessControl.Overrides
