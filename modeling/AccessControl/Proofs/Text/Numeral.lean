import AccessControl.Proofs.Text.Decimal

/-! # Which texts spell a number

A number is spelled by digits, one at the least and any number of zeros first, after one sign at
the most (`Decimal.Spells`).  Reading goes from left to right and stops at the first digit that
leads out of the bounds; since more digits never lead back (`Decimal.le_ofDigitChars`), the texts
that are read are those that spell a number within the bounds (`Decimal.read_eq_ok_iff`).
-/
namespace AccessControl.Decimal

/-- A text of digits, one at the least. -/
structure IsDigits (ds : List Char) : Prop where
  nonempty : ds ≠ []
  all : ∀ c ∈ ds, c.isDigit = true

/-- **A text spells a number.** -/
inductive Spells : List Char → Int → Prop where
  | plain {ds : List Char} (h : IsDigits ds) : Spells ds (Nat.ofDigitChars 10 ds 0)
  | plus {ds : List Char} (h : IsDigits ds) : Spells ('+' :: ds) (Nat.ofDigitChars 10 ds 0)
  | minus {ds : List Char} (h : IsDigits ds) : Spells ('-' :: ds) (-Nat.ofDigitChars 10 ds 0)

/-- **A text spells a number of a range.**  Where there are no negative numbers in the range there
is no minus sign either, not even before a zero. -/
structure SpellsIn (bounds : Bounds) (cs : List Char) (n : Int) : Prop where
  spells : Spells cs n
  low : bounds.low ≤ n
  high : n ≤ bounds.high
  unsigned : 0 ≤ bounds.low → cs.head? ≠ some '-'

variable {bounds : Bounds} {up : Bool} {v d : Nat} {n : Int} {c : Char} {cs : List Char}

/-- More digits never make a number smaller. -/
theorem le_ofDigitChars (cs : List Char) (v : Nat) : v ≤ Nat.ofDigitChars 10 cs v := by
  induction cs generalizing v with
  | nil => exact Nat.le_refl v
  | cons c cs ih =>
    rw [Nat.ofDigitChars_cons]
    have hrest := ih (10 * v + (c.toNat - '0'.toNat))
    omega

theorem isDigit_iff : c.isDigit = true ↔ '0' ≤ c ∧ c ≤ '9' := by
  simp only [Char.isDigit, Bool.and_eq_true, decide_eq_true_eq]
  exact Iff.rfl

/-- Downwards or upwards, who goes further leaves the bounds sooner. -/
theorem signed_within (hlow : bounds.low ≤ 0) (hhigh : 0 ≤ bounds.high) (hle : v ≤ d)
    (h : bounds.low ≤ signed up d ∧ signed up d ≤ bounds.high) :
    bounds.low ≤ signed up v ∧ signed up v ≤ bounds.high := by
  cases up with
  | true =>
    simp only [signed, if_true] at h ⊢
    omega
  | false =>
    simp only [signed, Bool.false_eq_true, if_false] at h ⊢
    omega

/-- **Digits are read if and only if they come to a number within the bounds.** -/
theorem readDigits_eq_ok_iff (hlow : bounds.low ≤ 0) (hhigh : 0 ≤ bounds.high)
    (hv : bounds.low ≤ signed up v ∧ signed up v ≤ bounds.high) :
    readDigits bounds up (signed up v) cs = .ok n ↔
      (∀ c ∈ cs, c.isDigit = true) ∧ n = signed up (Nat.ofDigitChars 10 cs v) ∧
        bounds.low ≤ n ∧ n ≤ bounds.high := by
  induction cs generalizing v with
  | nil =>
    constructor
    · intro h
      obtain rfl := Except.ok.inj h
      exact ⟨List.forall_mem_nil _, rfl, hv⟩
    · rintro ⟨-, rfl, -⟩
      rfl
  | cons c cs ih =>
    rw [readDigits, List.forall_mem_cons, isDigit_iff, digit?]
    by_cases hdigit : '0' ≤ c ∧ c ≤ '9'
    · rw [if_pos hdigit]
      dsimp only
      rw [signed_append, Nat.ofDigitChars_cons]
      generalize 10 * v + (c.toNat - '0'.toNat) = v'
      by_cases hv' : bounds.low ≤ signed up v' ∧ signed up v' ≤ bounds.high
      · rw [if_neg (Int.not_lt.mpr hv'.2), if_neg (Int.not_lt.mpr hv'.1), ih hv',
          and_iff_right hdigit]
      · -- Out of the bounds once, the number is out of them at the end.
        have hout : ¬(bounds.low ≤ signed up (Nat.ofDigitChars 10 cs v') ∧
            signed up (Nat.ofDigitChars 10 cs v') ≤ bounds.high) :=
          fun h => hv' (signed_within hlow hhigh (le_ofDigitChars cs v') h)
        refine iff_of_false ?_ ?_
        · intro h
          split at h
          · cases h
          · split at h
            · cases h
            · exact hv' ⟨by omega, by omega⟩
        · rintro ⟨-, rfl, hend⟩
          exact hout hend
    · rw [if_neg hdigit]
      refine iff_of_false ?_ fun h => hdigit h.1.1
      intro h
      cases h

theorem readDigits_zero_iff (hlow : bounds.low ≤ 0) (hhigh : 0 ≤ bounds.high) :
    readDigits bounds up 0 cs = .ok n ↔
      (∀ c ∈ cs, c.isDigit = true) ∧ n = signed up (Nat.ofDigitChars 10 cs 0) ∧
        bounds.low ≤ n ∧ n ≤ bounds.high := by
  have hzero : (0 : Int) = signed up 0 := by cases up <;> rfl
  have hbounds : bounds.low ≤ signed up 0 ∧ signed up 0 ≤ bounds.high := by
    rw [← hzero]
    exact ⟨hlow, hhigh⟩
  rw [hzero]
  exact readDigits_eq_ok_iff hlow hhigh hbounds

/-! ## Signs -/

theorem IsDigits.ne_of_mem {ds : List Char} (h : IsDigits ds) {c : Char} (hc : c ∈ ds) :
    c ≠ '+' ∧ c ≠ '-' := by
  have hdigit := h.all c hc
  constructor
  · rintro rfl
    exact absurd hdigit (by decide)
  · rintro rfl
    exact absurd hdigit (by decide)

theorem not_isDigits_cons (h : c = '+' ∨ c = '-') : ¬IsDigits (c :: cs) := by
  intro hdigits
  obtain ⟨hplus, hminus⟩ := hdigits.ne_of_mem List.mem_cons_self
  rcases h with rfl | rfl
  · exact hplus rfl
  · exact hminus rfl

theorem spells_plus_iff :
    Spells ('+' :: cs) n ↔ IsDigits cs ∧ n = Nat.ofDigitChars 10 cs 0 := by
  constructor
  · intro h
    cases h with
    | plain h => exact absurd h (not_isDigits_cons (.inl rfl))
    | plus h => exact ⟨h, rfl⟩
  · rintro ⟨h, rfl⟩
    exact .plus h

theorem spells_minus_iff :
    Spells ('-' :: cs) n ↔ IsDigits cs ∧ n = -Nat.ofDigitChars 10 cs 0 := by
  constructor
  · intro h
    cases h with
    | plain h => exact absurd h (not_isDigits_cons (.inr rfl))
    | minus h => exact ⟨h, rfl⟩
  · rintro ⟨h, rfl⟩
    exact .minus h

theorem spells_unsigned_iff (hplus : ∀ ds, cs ≠ '+' :: ds) (hminus : ∀ ds, cs ≠ '-' :: ds) :
    Spells cs n ↔ IsDigits cs ∧ n = Nat.ofDigitChars 10 cs 0 := by
  constructor
  · intro h
    cases h with
    | plain h => exact ⟨h, rfl⟩
    | plus h => exact absurd rfl (hplus _)
    | minus h => exact absurd rfl (hminus _)
  · rintro ⟨h, rfl⟩
    exact .plain h

theorem not_isDigits_nil : ¬IsDigits [] := fun h => h.nonempty rfl

/-- Digits are read if there are some and they come to a number within the bounds. -/
theorem readDigits_iff_isDigits (hlow : bounds.low ≤ 0) (hhigh : 0 ≤ bounds.high) (hne : cs ≠ []) :
    readDigits bounds up 0 cs = .ok n ↔
      (IsDigits cs ∧ n = signed up (Nat.ofDigitChars 10 cs 0)) ∧
        bounds.low ≤ n ∧ n ≤ bounds.high := by
  rw [readDigits_zero_iff hlow hhigh]
  constructor
  · rintro ⟨hall, hvalue, hwithin⟩
    exact ⟨⟨⟨hne, hall⟩, hvalue⟩, hwithin⟩
  · rintro ⟨⟨hdigits, hvalue⟩, hwithin⟩
    exact ⟨hdigits.all, hvalue, hwithin⟩

theorem spellsIn_iff (h : 0 ≤ bounds.low → cs.head? ≠ some '-') :
    SpellsIn bounds cs n ↔ Spells cs n ∧ bounds.low ≤ n ∧ n ≤ bounds.high := by
  constructor
  · exact fun hspells => ⟨hspells.spells, hspells.low, hspells.high⟩
  · rintro ⟨hspells, hlow, hhigh⟩
    exact ⟨hspells, hlow, hhigh, h⟩

theorem not_spellsIn_of_not_isDigits {sign : Char} (hsign : sign = '+' ∨ sign = '-')
    (h : ¬IsDigits cs) : ¬SpellsIn bounds (sign :: cs) n := by
  intro hspells
  rcases hsign with rfl | rfl
  · exact h (spells_plus_iff.mp hspells.spells).1
  · exact h (spells_minus_iff.mp hspells.spells).1

/-- **The texts that are read are those that spell a number within the bounds.** -/
theorem read_eq_ok_iff (hlow : bounds.low ≤ 0) (hhigh : 0 ≤ bounds.high) :
    read bounds cs = .ok n ↔ SpellsIn bounds cs n := by
  unfold read
  split
  · -- There is nothing to read.
    refine iff_of_false (fun h => nomatch h) fun h => ?_
    cases h.spells with
    | plain hdigits => exact not_isDigits_nil hdigits
  · exact iff_of_false (fun h => nomatch h)
      (not_spellsIn_of_not_isDigits (.inl rfl) not_isDigits_nil)
  · exact iff_of_false (fun h => nomatch h)
      (not_spellsIn_of_not_isDigits (.inr rfl) not_isDigits_nil)
  · rename_i ds hne
    rw [readDigits_iff_isDigits hlow hhigh fun h => hne (h ▸ rfl),
      spellsIn_iff fun _ => by simp, spells_plus_iff]
    exact Iff.rfl
  · rename_i ds hne
    split
    · rename_i hnegative
      rw [readDigits_iff_isDigits hlow hhigh fun h => hne (h ▸ rfl),
        spellsIn_iff fun h => absurd hnegative (Int.not_lt.mpr h), spells_minus_iff]
      exact Iff.rfl
    · rename_i hnegative
      exact iff_of_false (fun h => nomatch h) fun h => h.unsigned (Int.not_lt.mp hnegative) rfl
  · rename_i hnil _ _ hplus hminus
    have hfirst : cs.head? ≠ some '-' := by
      intro h
      obtain ⟨ds, rfl⟩ := List.head?_eq_some_iff.mp h
      exact hminus ds rfl
    rw [readDigits_iff_isDigits hlow hhigh hnil, spellsIn_iff fun _ => hfirst,
      spells_unsigned_iff hplus hminus]
    exact Iff.rfl

end AccessControl.Decimal
