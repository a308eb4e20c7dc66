import AccessControl.Identity

/-! # What is written in decimal reads back

The digits of a number are those of its tenth and one more, so what holds of the digits is
shown by going from a number to its tenth.  A number is read from left to right and the
bounds are checked at every digit; they hold on the way because they hold at the end.
-/
namespace AccessControl
namespace Decimal

theorem ofNat_of_lt {n : Nat} (h : n < 10) : ofNat n = [n.digitChar] :=
  Nat.toDigits_of_lt_base h

theorem ofNat_of_le {n : Nat} (h : 10 ≤ n) : ofNat n = ofNat (n / 10) ++ [(n % 10).digitChar] :=
  Nat.toDigits_of_base_le (by decide) h

theorem ofNat_ne_nil {n : Nat} : ofNat n ≠ [] := Nat.toDigits_ne_nil

/-- **The induction along the digits of a number**: one digit, or those of a smaller number
and one more. -/
theorem digits_induction {P : Nat → List Char → Prop}
    (one : ∀ d, d < 10 → P d [d.digitChar])
    (more : ∀ n d, 0 < n → d < 10 → P n (ofNat n) → P (10 * n + d) (ofNat n ++ [d.digitChar]))
    (n : Nat) : P n (ofNat n) := by
  induction n using Nat.strongRecOn with
  | ind n ih =>
    by_cases h : n < 10
    · rw [ofNat_of_lt h]
      exact one n h
    · have hmore := more (n / 10) (n % 10) (by omega) (by omega) (ih (n / 10) (by omega))
      rw [ofNat_of_le (by omega)]
      rwa [Nat.div_add_mod] at hmore

theorem digit?_digitChar {d : Nat} (h : d < 10) : digit? d.digitChar = some d := by
  have hcases : ∀ d : Fin 10, digit? d.val.digitChar = some d.val := by decide
  exact hcases ⟨d, h⟩

theorem isDigit_of_mem_ofNat {n : Nat} {c : Char} (h : c ∈ ofNat n) : c.isDigit = true :=
  Nat.isDigit_of_mem_toDigits (by decide) (by decide) h

/-- What is written for a number are digits, after a minus sign at most. -/
theorem eq_minus_or_isDigit_of_mem_ofInt {n : Int} {c : Char} (h : c ∈ ofInt n) :
    c = '-' ∨ c.isDigit = true := by
  rw [ofInt] at h
  split at h
  · rcases List.mem_cons.mp h with rfl | h
    · exact .inl rfl
    · exact .inr (isDigit_of_mem_ofNat h)
  · exact .inr (isDigit_of_mem_ofNat h)

/-- A number is written without any other character. -/
theorem not_mem_ofInt {n : Int} {c : Char} (hminus : c ≠ '-') (hdigit : c.isDigit = false) :
    c ∉ ofInt n := by
  intro h
  rcases eq_minus_or_isDigit_of_mem_ofInt h with hc | hc
  · exact hminus hc
  · exact Bool.false_ne_true (hdigit.symm.trans hc)

/-! ## Reading back -/

theorem readDigits_append {bounds : Bounds} {up : Bool} {v : Int} {cs ds : List Char} :
    readDigits bounds up v (cs ++ ds) =
      (readDigits bounds up v cs).bind (fun v' => readDigits bounds up v' ds) := by
  induction cs generalizing v with
  | nil => rfl
  | cons c cs ih =>
    simp only [List.cons_append, readDigits]
    cases digit? c with
    | none => rfl
    | some d =>
      dsimp only
      generalize (if up then v * 10 + (d : Int) else v * 10 - d) = v'
      by_cases hhigh : bounds.high < v'
      · rw [if_pos hhigh, if_pos hhigh]
        rfl
      · by_cases hlow : v' < bounds.low
        · rw [if_neg hhigh, if_pos hlow, if_neg hhigh, if_pos hlow]
          rfl
        · rw [if_neg hhigh, if_neg hlow, if_neg hhigh, if_neg hlow, ih]

/-- The number that digits are read as, upwards from zero or downwards. -/
def signed (up : Bool) (n : Nat) : Int := if up then n else -n

theorem signed_append (up : Bool) (n d : Nat) :
    (if up then signed up n * 10 + (d : Int) else signed up n * 10 - d) =
      signed up (10 * n + d) := by
  cases up with
  | true =>
    simp only [signed, if_true]
    omega
  | false =>
    simp only [signed, Bool.false_eq_true, if_false]
    omega

/-- **Digits are read within bounds that have zero and the number they come to.** -/
theorem readDigits_ofNat {bounds : Bounds} (hlow : bounds.low ≤ 0) (hhigh : 0 ≤ bounds.high)
    (up : Bool) {n : Nat} (hn : bounds.low ≤ signed up n) (hn' : signed up n ≤ bounds.high) :
    readDigits bounds up 0 (ofNat n) = .ok (signed up n) := by
  revert hn hn'
  refine digits_induction (P := fun n cs => bounds.low ≤ signed up n →
    signed up n ≤ bounds.high → readDigits bounds up 0 cs = .ok (signed up n)) ?_ ?_ n
  · intro d hd hn hn'
    have hzero : (0 : Int) = signed up 0 := by cases up <;> rfl
    simp only [readDigits, digit?_digitChar hd]
    rw [hzero, signed_append, Nat.mul_zero, Nat.zero_add, if_neg (by omega), if_neg (by omega)]
  · intro n d _ hd ih hn hn'
    -- What is read on the way lies between zero and the number.
    have hway : bounds.low ≤ signed up n ∧ signed up n ≤ bounds.high := by
      cases up with
      | true =>
        simp only [signed, if_true] at hn' ⊢
        omega
      | false =>
        simp only [signed, Bool.false_eq_true, if_false] at hn ⊢
        omega
    rw [readDigits_append, ih hway.1 hway.2]
    simp only [Except.bind, readDigits, digit?_digitChar hd]
    rw [signed_append, if_neg (by omega), if_neg (by omega)]

/-- Digits are read as they are when no sign comes before them. -/
theorem read_of_isDigit {bounds : Bounds} {cs : List Char} (hne : cs ≠ [])
    (h : ∀ c ∈ cs, c.isDigit = true) : read bounds cs = readDigits bounds true 0 cs := by
  have hsign : ∀ c ∈ cs, c ≠ '+' ∧ c ≠ '-' := by
    intro c hc
    have hd := h c hc
    constructor
    · rintro rfl
      exact absurd hd (by decide)
    · rintro rfl
      exact absurd hd (by decide)
  unfold read
  split
  · exact absurd rfl hne
  · exact absurd rfl (hsign _ List.mem_cons_self).1
  · exact absurd rfl (hsign _ List.mem_cons_self).2
  · exact absurd rfl (hsign _ List.mem_cons_self).1
  · exact absurd rfl (hsign _ List.mem_cons_self).2
  · rfl

/-- After a minus sign digits are subtracted, if the range has negative numbers. -/
theorem read_minus {bounds : Bounds} {cs : List Char} (hne : cs ≠ []) (h : bounds.low < 0) :
    read bounds ('-' :: cs) = readDigits bounds false 0 cs := by
  cases cs with
  | nil => exact absurd rfl hne
  | cons c cs => exact if_pos h

/-- **A number of a range that includes zero reads back from its decimal form.** -/
theorem read_ofInt {bounds : Bounds} {n : Int} (hlow : bounds.low ≤ 0) (hhigh : 0 ≤ bounds.high)
    (hn : bounds.low ≤ n) (hn' : n ≤ bounds.high) : read bounds (ofInt n) = .ok n := by
  by_cases hneg : n < 0
  · have hvalue : signed false n.natAbs = n := by
      simp only [signed, Bool.false_eq_true, if_false]
      omega
    rw [ofInt, if_pos hneg, read_minus ofNat_ne_nil (by omega),
      readDigits_ofNat hlow hhigh false (by omega) (by omega), hvalue]
  · have hvalue : signed true n.natAbs = n := by
      simp only [signed, if_true]
      omega
    rw [ofInt, if_neg hneg, read_of_isDigit ofNat_ne_nil (fun c hc => isDigit_of_mem_ofNat hc),
      readDigits_ofNat hlow hhigh true (by omega) (by omega), hvalue]

end Decimal

/-! ## Texts without blanks -/

theorem dropWhile_eq_self {p : Char → Bool} {cs : List Char} (h : ∀ c ∈ cs, p c = false) :
    cs.dropWhile p = cs := by
  cases cs with
  | nil => rfl
  | cons c cs => rw [List.dropWhile_cons_of_neg (by simp [h c List.mem_cons_self])]

/-- Nothing is trimmed from a text without blanks. -/
theorem trimChars_eq_self {cs : List Char} (h : ∀ c ∈ cs, isBlank c = false) :
    trimChars cs = cs := by
  rw [trimChars, dropWhile_eq_self h, dropWhile_eq_self (by simpa using h), List.reverse_reverse]

theorem isBlank_eq_false_of_isDigit {c : Char} (h : c.isDigit = true) : isBlank c = false := by
  have hlow : 48 ≤ c.toNat ∧ c.toNat ≤ 57 := by
    simp only [Char.isDigit, Bool.and_eq_true, decide_eq_true_eq] at h
    exact ⟨h.1, h.2⟩
  simp only [isBlank]
  grind

theorem isBlank_eq_false_of_mem_ofInt {n : Int} {c : Char} (h : c ∈ Decimal.ofInt n) :
    isBlank c = false := by
  rcases Decimal.eq_minus_or_isDigit_of_mem_ofInt h with rfl | hd
  · decide
  · exact isBlank_eq_false_of_isDigit hd

/-! ## Numbers of users and roles -/

theorem readNumber_text (what : String) (n : Int64) :
    readNumber what (Decimal.text n.toInt) = .ok n := by
  have hlow : Decimal.Bounds.signed64.low ≤ n.toInt := n.minValue_le_toInt
  have hhigh : n.toInt ≤ Decimal.Bounds.signed64.high := n.toInt_le
  rw [readNumber, Decimal.text, String.toList_ofList,
    trimChars_eq_self (fun c hc => isBlank_eq_false_of_mem_ofInt hc),
    Decimal.read_ofInt (by decide) (by decide) hlow hhigh]
  exact congrArg Except.ok (Int64.ofInt_toInt n)

/-- **The number of a user reads back from its text.** -/
@[simp] theorem UserId.ofText_text (u : UserId) : UserId.ofText u.text = .ok u := by
  rw [UserId.ofText, UserId.text, readNumber_text]
  rfl

/-- **The number of a role reads back from its text.** -/
@[simp] theorem RoleId.ofText_text (r : RoleId) : RoleId.ofText r.text = .ok r := by
  rw [RoleId.ofText, RoleId.text, readNumber_text]
  rfl

theorem UserId.text_injective {u v : UserId} (h : u.text = v.text) : u = v := by
  have hv := UserId.ofText_text u
  rw [h, UserId.ofText_text] at hv
  exact (Except.ok.inj hv).symm

theorem RoleId.text_injective {r s : RoleId} (h : r.text = s.text) : r = s := by
  have hs := RoleId.ofText_text r
  rw [h, RoleId.ofText_text] at hs
  exact (Except.ok.inj hs).symm

end AccessControl
