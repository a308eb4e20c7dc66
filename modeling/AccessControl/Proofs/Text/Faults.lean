import AccessControl.Proofs.Text.Numeral

/-! # What is wrong with a text that spells no number

A text is read from left to right, and the first fault met decides what is reported
(`Decimal.FirstFault`): up to it there are digits that come to a number within the bounds, and the
next character is no digit or leads above or below the bounds (`Decimal.DigitFault`).  A text is
refused for a fault exactly if that is its first one (`Decimal.read_eq_error_iff`).

So the numbers of users and roles and the texts that are read as these are told apart from all
other texts, and of those it is known what is wrong with them (`ReadsNumbers`).
-/
namespace AccessControl

namespace Decimal

/-- What digits come to, upwards from zero or downwards. -/
def valueOf (up : Bool) (ds : List Char) : Int := signed up (Nat.ofDigitChars 10 ds 0)

/-- Digits, if any, that come to a number within the bounds. -/
structure Within (bounds : Bounds) (up : Bool) (ds : List Char) : Prop where
  digits : ∀ c ∈ ds, c.isDigit = true
  low : bounds.low ≤ valueOf up ds
  high : valueOf up ds ≤ bounds.high

/-- **The first fault among digits**: the digits before it come to a number within the bounds, and
then there is no digit, or one that leads out of them. -/
inductive DigitFault (bounds : Bounds) (up : Bool) : List Char → Fault → Prop where
  | badDigit {ds c rest} (h : Within bounds up ds) (hc : c.isDigit = false) :
    DigitFault bounds up (ds ++ c :: rest) .badDigit
  | tooLarge {ds c rest} (h : Within bounds up ds) (hc : c.isDigit = true)
    (hvalue : bounds.high < valueOf up (ds ++ [c])) :
    DigitFault bounds up (ds ++ c :: rest) .tooLarge
  | tooSmall {ds c rest} (h : Within bounds up ds) (hc : c.isDigit = true)
    (hvalue : valueOf up (ds ++ [c]) < bounds.low) :
    DigitFault bounds up (ds ++ c :: rest) .tooSmall

/-- **The first fault of a text**: there is nothing, or nothing but a sign, or there is a fault
among the digits after the sign.  A minus sign is one only where there are negative numbers. -/
inductive FirstFault (bounds : Bounds) : List Char → Fault → Prop where
  | nothing : FirstFault bounds [] .empty
  | signAlone {sign} (h : sign = '+' ∨ sign = '-') : FirstFault bounds [sign] .badDigit
  | plus {ds fault} (h : DigitFault bounds true ds fault) : FirstFault bounds ('+' :: ds) fault
  | minus {ds fault} (hlow : bounds.low < 0) (h : DigitFault bounds false ds fault) :
    FirstFault bounds ('-' :: ds) fault
  | plain {ds fault} (hplus : ds.head? ≠ some '+')
    (hminus : bounds.low < 0 → ds.head? ≠ some '-') (h : DigitFault bounds true ds fault) :
    FirstFault bounds ds fault

/-! ## Among digits -/

variable {bounds : Bounds} {up : Bool} {c : Char} {cs ds rest : List Char} {fault : Fault}

theorem valueOf_nil (up : Bool) : valueOf up [] = 0 := by cases up <;> rfl

theorem within_nil (hlow : bounds.low ≤ 0) (hhigh : 0 ≤ bounds.high) : Within bounds up [] where
  digits := List.forall_mem_nil _
  low := by rwa [valueOf_nil]
  high := by rwa [valueOf_nil]

theorem not_digitFault_nil : ¬DigitFault bounds up [] fault := by
  generalize hcs : ([] : List Char) = cs
  intro h
  cases h with
  | badDigit => exact List.append_ne_nil_of_right_ne_nil _ (List.cons_ne_nil _ _) hcs.symm
  | tooLarge => exact List.append_ne_nil_of_right_ne_nil _ (List.cons_ne_nil _ _) hcs.symm
  | tooSmall => exact List.append_ne_nil_of_right_ne_nil _ (List.cons_ne_nil _ _) hcs.symm

/-- A character that is no digit is the first fault if it comes first. -/
theorem digitFault_cons_iff (hlow : bounds.low ≤ 0) (hhigh : 0 ≤ bounds.high)
    (hc : c.isDigit = false) : DigitFault bounds up (c :: cs) fault ↔ fault = .badDigit := by
  constructor
  · generalize hcs : c :: cs = text
    -- Whatever digits come first, the first character would have to be one.
    have hfirst : ∀ {ds c' rest}, c :: cs = ds ++ c' :: rest → Within bounds up ds →
        c'.isDigit = true → False := by
      intro ds c' rest heq hds hc'
      cases ds with
      | nil =>
        obtain rfl := (List.cons.inj heq).1
        exact Bool.false_ne_true (hc.symm.trans hc')
      | cons d ds =>
        obtain rfl := (List.cons.inj heq).1
        exact Bool.false_ne_true (hc.symm.trans (hds.digits c List.mem_cons_self))
    intro h
    cases h with
    | badDigit => rfl
    | tooLarge hds hc' => exact (hfirst hcs hds hc').elim
    | tooSmall hds hc' => exact (hfirst hcs hds hc').elim
  · rintro rfl
    show DigitFault bounds up ([] ++ c :: cs) .badDigit
    exact .badDigit (within_nil hlow hhigh) hc

theorem readDigits_of_within (hlow : bounds.low ≤ 0) (hhigh : 0 ≤ bounds.high)
    (h : Within bounds up ds) : readDigits bounds up 0 ds = .ok (valueOf up ds) :=
  (readDigits_zero_iff hlow hhigh).mpr ⟨h.digits, rfl, h.low, h.high⟩

/-- After digits that come to a number within the bounds it is looked at one more character. -/
theorem readDigits_within_append (hlow : bounds.low ≤ 0) (hhigh : 0 ≤ bounds.high)
    (h : Within bounds up ds) : readDigits bounds up 0 (ds ++ c :: rest) =
      if c.isDigit = true then
        if bounds.high < valueOf up (ds ++ [c]) then .error .tooLarge
        else if valueOf up (ds ++ [c]) < bounds.low then .error .tooSmall
        else readDigits bounds up (valueOf up (ds ++ [c])) rest
      else .error .badDigit := by
  rw [readDigits_append, readDigits_of_within hlow hhigh h]
  simp only [Except.bind, readDigits, digit?, isDigit_iff]
  by_cases hdigit : '0' ≤ c ∧ c ≤ '9'
  · rw [if_pos hdigit, if_pos hdigit]
    dsimp only
    rw [valueOf, signed_append, valueOf, Nat.ofDigitChars_append, Nat.ofDigitChars_cons,
      Nat.ofDigitChars_nil]
  · rw [if_neg hdigit, if_neg hdigit]

/-- What is reported after digits within the bounds is the first fault. -/
theorem digitFault_of_readDigits (hlow : bounds.low ≤ 0) (hhigh : 0 ≤ bounds.high)
    (hds : Within bounds up ds) (h : readDigits bounds up (valueOf up ds) rest = .error fault) :
    DigitFault bounds up (ds ++ rest) fault := by
  induction rest generalizing ds with
  | nil => cases h
  | cons c rest ih =>
    have hread : readDigits bounds up 0 (ds ++ c :: rest) = .error fault := by
      rw [readDigits_append, readDigits_of_within hlow hhigh hds]
      exact h
    rw [readDigits_within_append hlow hhigh hds] at hread
    split at hread
    · rename_i hc
      split at hread
      · rename_i hvalue
        cases hread
        exact .tooLarge hds hc hvalue
      · rename_i hhigh'
        split at hread
        · rename_i hvalue
          cases hread
          exact .tooSmall hds hc hvalue
        · rename_i hlow'
          -- The character is one more digit, and the number is still within the bounds.
          have hmore : Within bounds up (ds ++ [c]) :=
            ⟨List.forall_mem_append.mpr ⟨hds.digits, List.forall_mem_singleton.mpr hc⟩,
              Int.not_lt.mp hlow', Int.not_lt.mp hhigh'⟩
          have hfault := ih hmore hread
          rwa [List.append_assoc] at hfault
    · rename_i hc
      cases hread
      exact .badDigit hds (Bool.eq_false_iff.mpr hc)

/-- **Digits are refused for a fault exactly if that is the first fault among them.** -/
theorem readDigits_eq_error_iff (hlow : bounds.low ≤ 0) (hhigh : 0 ≤ bounds.high) :
    readDigits bounds up 0 cs = .error fault ↔ DigitFault bounds up cs fault := by
  constructor
  · intro h
    have hnone : Within bounds up [] := within_nil hlow hhigh
    rw [← valueOf_nil up] at h
    exact digitFault_of_readDigits hlow hhigh hnone h
  · intro h
    cases h with
    | badDigit hds hc => rw [readDigits_within_append hlow hhigh hds, if_neg (by simp [hc])]
    | tooLarge hds hc hvalue =>
      rw [readDigits_within_append hlow hhigh hds, if_pos hc, if_pos hvalue]
    | tooSmall hds hc hvalue =>
      rw [readDigits_within_append hlow hhigh hds, if_pos hc, if_neg (by omega), if_pos hvalue]

/-! ## After a sign -/

theorem firstFault_plus_iff (hne : cs ≠ []) :
    FirstFault bounds ('+' :: cs) fault ↔ DigitFault bounds true cs fault := by
  constructor
  · intro h
    cases h with
    | signAlone => exact absurd rfl hne
    | plus h => exact h
    | plain hplus => exact absurd rfl hplus
  · exact .plus

theorem firstFault_minus_iff (hne : cs ≠ []) (hlow : bounds.low < 0) :
    FirstFault bounds ('-' :: cs) fault ↔ DigitFault bounds false cs fault := by
  constructor
  · intro h
    cases h with
    | signAlone => exact absurd rfl hne
    | minus _ h => exact h
    | plain _ hminus => exact absurd rfl (hminus hlow)
  · exact .minus hlow

/-- Where there are no negative numbers a minus sign is a fault. -/
theorem firstFault_minus_iff_of_unsigned (hne : cs ≠ []) (hlow : bounds.low = 0)
    (hhigh : 0 ≤ bounds.high) : FirstFault bounds ('-' :: cs) fault ↔ fault = .badDigit := by
  have hfault : DigitFault bounds true ('-' :: cs) fault ↔ fault = .badDigit :=
    digitFault_cons_iff (Int.le_of_eq hlow) hhigh rfl
  constructor
  · intro h
    cases h with
    | signAlone => exact absurd rfl hne
    | minus hnegative => exact absurd hlow (Int.ne_of_lt hnegative)
    | plain _ _ h => exact hfault.mp h
  · intro h
    exact .plain (by simp) (fun hnegative => absurd hlow (Int.ne_of_lt hnegative)) (hfault.mpr h)

theorem firstFault_sign_iff {sign : Char} (hlow : bounds.low ≤ 0) (hhigh : 0 ≤ bounds.high)
    (h : sign = '+' ∨ sign = '-') : FirstFault bounds [sign] fault ↔ fault = .badDigit := by
  constructor
  · generalize htext : [sign] = text
    intro hfirst
    cases hfirst with
    | nothing => cases htext
    | signAlone => rfl
    | plus hdigits => cases htext; exact (not_digitFault_nil hdigits).elim
    | minus _ hdigits => cases htext; exact (not_digitFault_nil hdigits).elim
    | plain _ _ hdigits =>
      subst htext
      have hnone : sign.isDigit = false := by rcases h with rfl | rfl <;> rfl
      exact (digitFault_cons_iff hlow hhigh hnone).mp hdigits
  · rintro rfl
    exact .signAlone h

/-- **A text is refused for a fault exactly if that is its first one.** -/
theorem read_eq_error_iff (hlow : bounds.low ≤ 0) (hhigh : 0 ≤ bounds.high) :
    read bounds cs = .error fault ↔ FirstFault bounds cs fault := by
  unfold read
  split
  · constructor
    · intro h
      cases h
      exact .nothing
    · intro h
      cases h with
      | nothing => rfl
      | plain _ _ h => exact (not_digitFault_nil h).elim
  · rw [firstFault_sign_iff hlow hhigh (.inl rfl), Except.error.injEq]
    exact eq_comm
  · rw [firstFault_sign_iff hlow hhigh (.inr rfl), Except.error.injEq]
    exact eq_comm
  · rename_i ds hne
    rw [readDigits_eq_error_iff hlow hhigh, firstFault_plus_iff fun h => hne (h ▸ rfl)]
  · rename_i ds hne
    have hne' : ds ≠ [] := fun h => hne (h ▸ rfl)
    split
    · rename_i hnegative
      rw [readDigits_eq_error_iff hlow hhigh, firstFault_minus_iff hne' hnegative]
    · rename_i hnegative
      rw [firstFault_minus_iff_of_unsigned hne' (by omega) hhigh, Except.error.injEq]
      exact eq_comm
  · rename_i hnil _ _ hplus hminus
    rw [readDigits_eq_error_iff hlow hhigh]
    have hfirst : ∀ sign : Char, (∀ ds, cs ≠ sign :: ds) → cs.head? ≠ some sign := by
      intro sign hother h
      obtain ⟨ds, rfl⟩ := List.head?_eq_some_iff.mp h
      exact hother ds rfl
    constructor
    · exact .plain (hfirst '+' hplus) fun _ => hfirst '-' hminus
    · intro h
      cases h with
      | nothing => exact absurd rfl hnil
      | signAlone h =>
        rcases h with rfl | rfl
        · exact absurd rfl (hplus [])
        · exact absurd rfl (hminus [])
      | plus => exact absurd rfl (hplus _)
      | minus => exact absurd rfl (hminus _)
      | plain _ _ h => exact h

end Decimal

/-! ## Numbers of users and roles -/

/-- **How the numbers of one kind are read**: each from its own text; and a text, blanks around it
aside, as the number that it spells, or else it is refused, quoted as it is, for its first
fault. -/
structure ReadsNumbers {Id : Type} (what : String) (number : Id → Int64) (text : Id → String)
    (ofText : String → Except Failure Id) : Prop where
  ofText_text : ∀ id, ofText (text id) = .ok id
  ofText_eq_ok_iff : ∀ s id, ofText s = .ok id ↔
    Decimal.SpellsIn .signed64 (trimChars s.toList) (number id).toInt
  ofText_eq_error_iff : ∀ s failure, ofText s = .error failure ↔
    ∃ fault, Decimal.FirstFault .signed64 (trimChars s.toList) fault ∧
      failure = .validation ("invalid " ++ what ++ " '" ++ s ++ "': " ++ fault.message)

variable {what s : String} {n : Int64} {failure : Failure}

theorem readNumber_eq_ok_iff : readNumber what s = .ok n ↔
    Decimal.SpellsIn .signed64 (trimChars s.toList) n.toInt := by
  rw [← Decimal.read_eq_ok_iff (by decide) (by decide), readNumber]
  cases hread : Decimal.read .signed64 (trimChars s.toList) with
  | error fault => simp only [reduceCtorEq]
  | ok m =>
    have hspells := (Decimal.read_eq_ok_iff (by decide) (by decide)).mp hread
    have hback : (Int64.ofInt m).toInt = m := Int64.toInt_ofInt_of_le hspells.low
      (Int.lt_of_le_of_lt hspells.high (by decide))
    simp only [Except.ok.injEq]
    constructor
    · rintro rfl
      exact hback.symm
    · rintro rfl
      exact Int64.ofInt_toInt n

theorem readNumber_eq_error_iff : readNumber what s = .error failure ↔
    ∃ fault, Decimal.FirstFault .signed64 (trimChars s.toList) fault ∧
      failure = .validation ("invalid " ++ what ++ " '" ++ s ++ "': " ++ fault.message) := by
  have hfault : ∀ fault, Decimal.read .signed64 (trimChars s.toList) = .error fault ↔
      Decimal.FirstFault .signed64 (trimChars s.toList) fault :=
    fun _ => Decimal.read_eq_error_iff (by decide) (by decide)
  simp only [← hfault]
  rw [readNumber]
  cases Decimal.read .signed64 (trimChars s.toList) with
  | ok m => simp
  | error fault => simp [eq_comm]

/-- Numbers that are read as `readNumber` reads them, and written in decimal. -/
theorem readsNumbers_of_readNumber {Id : Type} {number : Id → Int64} {mk : Int64 → Id}
    (hmk : ∀ id n, mk n = id ↔ n = number id) :
    ReadsNumbers what number (fun id => Decimal.text (number id).toInt)
      (fun s => (readNumber what s).map mk) where
  ofText_text id := by
    rw [readNumber_text]
    exact congrArg Except.ok ((hmk id _).mpr rfl)
  ofText_eq_ok_iff s id := by
    have hread : readNumber what s = .ok (number id) ↔ _ := readNumber_eq_ok_iff
    rw [← hread]
    cases readNumber what s with
    | ok n => simp [Except.map, hmk]
    | error failure => simp [Except.map]
  ofText_eq_error_iff s failure := by
    rw [← readNumber_eq_error_iff]
    cases readNumber what s with
    | ok n => simp [Except.map]
    | error failure => simp [Except.map]

/-- **Numbers and their texts agree.**  The number of a user, and that of a role, reads back from
its text.  A text is read as a number exactly if it spells the number within sixty-four bits,
blanks around it aside; every other text is refused and quoted as it is, for the first fault that
is met in it from left to right. -/
theorem numbers_and_texts_agree :
    ReadsNumbers "user id" UserId.number UserId.text UserId.ofText ∧
      ReadsNumbers "role id" RoleId.number RoleId.text RoleId.ofText :=
  ⟨readsNumbers_of_readNumber fun _ _ => ⟨congrArg UserId.number, congrArg UserId.mk⟩,
    readsNumbers_of_readNumber fun _ _ => ⟨congrArg RoleId.number, congrArg RoleId.mk⟩⟩

/-- The digit that leads out of the range comes before the letter. -/
example : UserId.ofText " -9223372036854775809x" = .error (.validation
    "invalid user id ' -9223372036854775809x': number too small to fit in target type") := rfl

end AccessControl
