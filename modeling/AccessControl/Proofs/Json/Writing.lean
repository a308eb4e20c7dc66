import AccessControl.Json.Basic
import AccessControl.Proofs.Json.Scan
import AccessControl.Proofs.Text.Decimal

/-! # What is written is JSON

What is written for a value is one of the ways in which the grammar allows it: without blanks, and
with an escape only where there must be one (`written_chars`).
-/
namespace AccessControl

/-! ## Quoted texts -/

namespace Reading

theorem hexNumber?_hexChar {m n : Nat} (hm : m < 16) (hn : n < 16) :
    hexNumber? (some '0') (some '0') (some (Json.hexChar m)) (some (Json.hexChar n)) =
      some (m * 16 + n) := by
  have hchar : ∀ d : Fin 16, Hex.value? (Json.hexChar d.val) = some d.val := by decide
  have hzero : Hex.value? '0' = some 0 := by decide
  have hm' := hchar ⟨m, hm⟩
  have hn' := hchar ⟨n, hn⟩
  simp only [hexNumber?, Option.bind_some, hzero, hm', hn', Option.bind_eq_bind, Option.pure_def]
  simp

/-- An escaped character is written as one part. -/
theorem written_escape (c : Char) : (Piece.char c).Written ((Json.escape c).map some) := by
  -- First the characters that have an escape of their own, then the other control characters.
  rw [Json.escape]
  split
  · rename_i h
    exact .escaped (by rw [h]; rfl)
  split
  · rename_i h
    exact .escaped (by rw [h]; rfl)
  split
  · rename_i h
    exact .escaped (by rw [h]; rfl)
  split
  · rename_i h
    exact .escaped (by rw [h]; rfl)
  split
  · rename_i h
    exact .escaped (by rw [h]; rfl)
  split
  · rename_i h
    exact .escaped (by rw [h]; rfl)
  split
  · rename_i h
    exact .escaped (by rw [h]; rfl)
  by_cases hlow : c < ' '
  · have hlow' : c.toNat < 32 := hlow
    have hnumber := hexNumber?_hexChar (m := c.toNat / 16) (n := c.toNat % 16)
      (by omega) (by omega)
    rw [Nat.div_add_mod'] at hnumber
    have hpiece : Piece.ofNumber c.toNat = .char c := by
      rw [Piece.ofNumber, if_neg (by omega), Char.ofNat_toNat]
    rw [if_pos hlow, ← hpiece]
    exact .numbered hnumber
  · rw [if_neg hlow]
    exact .plain hlow ‹_› ‹_›

theorem quoted_quoteTail (cs : List Char) :
    Quoted (cs.map .char) ((Json.quoteTail cs).map some) := by
  induction cs with
  | nil => exact .close
  | cons c cs ih =>
    rw [Json.quoteTail, List.map_append]
    exact .part (written_escape c) ih

theorem join?_map_char (cs : List Char) : join? (cs.map .char) = some cs := by
  induction cs with
  | nil => rfl
  | cons c cs ih => rw [List.map_cons, join?, ih, Option.map_some]

theorem joinText?_map_char (s : String) : joinText? (s.toList.map .char) = some s := by
  rw [joinText?, join?_map_char, Option.map_some, String.ofList_toList]

/-! ## Numbers -/

/-- The values of the digits that are written for a number. -/
def digitsOf (n : Nat) : List Nat := (Decimal.ofNat n).filterMap Decimal.digit?

theorem digits_of_isDigit {cs : List Char} (h : ∀ c ∈ cs, c.isDigit = true) :
    Digits (cs.filterMap Decimal.digit?) (cs.map some) := by
  induction cs with
  | nil => exact .nil
  | cons c cs ih =>
    obtain ⟨hc, hcs⟩ := List.forall_mem_cons.mp h
    obtain ⟨d, hd⟩ : ∃ d, Decimal.digit? c = some d := by
      simp only [Char.isDigit, Bool.and_eq_true, decide_eq_true_eq] at hc
      exact ⟨_, if_pos hc⟩
    rw [List.filterMap_cons_some hd]
    exact .cons hd (ih hcs)

/-- The digits of a number begin with a zero only if it is zero. -/
theorem digitsOf_eq (n : Nat) : digitsOf n = [n] ∨ ∃ d ds, digitsOf n = d :: ds ∧ 0 < d := by
  refine Decimal.digits_induction (P := fun n cs => cs.filterMap Decimal.digit? = [n] ∨
    ∃ d ds, cs.filterMap Decimal.digit? = d :: ds ∧ 0 < d) ?_ ?_ n
  · intro d hd
    exact .inl (by simp [Decimal.digit?_digitChar hd])
  · intro n d hn hd ih
    rw [List.filterMap_append]
    rcases ih with ih | ⟨e, ds, ih, he⟩
    · exact .inr ⟨n, [d], by simp [ih, Decimal.digit?_digitChar hd], hn⟩
    · exact .inr ⟨e, ds ++ [d], by simp [ih, Decimal.digit?_digitChar hd], he⟩

theorem isWhole_digitsOf (n : Nat) : IsWhole (digitsOf n) := by
  rcases digitsOf_eq n with hds | ⟨d, ds, hds, hd⟩
  · rw [hds]
    exact ⟨List.cons_ne_nil _ _, fun _ _ => by simp⟩
  · rw [hds]
    refine ⟨List.cons_ne_nil _ _, fun _ _ heq => ?_⟩
    exact absurd (List.cons.inj heq).1 (Nat.ne_of_gt hd)

/-- The digits of a number come to the number. -/
theorem value_digitsOf (n : Nat) : value (digitsOf n) = n := by
  refine Decimal.digits_induction (P := fun n cs => value (cs.filterMap Decimal.digit?) = n)
    ?_ ?_ n
  · intro d hd
    simp [Decimal.digit?_digitChar hd, value]
  · intro n d _ hd ih
    rw [value] at ih
    simp [List.filterMap_append, Decimal.digit?_digitChar hd, value, ih, Nat.mul_comm n 10]

/-- The parts of a whole number. -/
def Numeral.ofInt (n : Int) : Numeral := ⟨n < 0, digitsOf n.natAbs, none, none⟩

theorem Numeral.reading_ofInt {n : Int} (hn : n.natAbs ≤ maxWord) :
    (Numeral.ofInt n).reading = .int n := by
  have hint : (Numeral.ofInt n).IsInt := by
    refine ⟨rfl, rfl, ?_, fun hneg => ?_⟩
    · exact (value_digitsOf _).symm ▸ hn
    · have hlow : n < 0 := of_decide_eq_true hneg
      rw [Numeral.ofInt, value_digitsOf]
      omega
  rw [reading, if_pos hint, Numeral.ofInt]
  simp only [value_digitsOf, decide_eq_true_eq]
  congr 1
  split <;> omega

theorem Numeral.written_ofInt (n : Int) :
    (Numeral.ofInt n).Written ((Decimal.ofInt n).map some) := by
  have hdigits : (Numeral.ofInt n).Unsigned ((Decimal.ofNat n.natAbs).map some) := by
    have h := Unsigned.mk (n := Numeral.ofInt n) (isWhole_digitsOf _)
      (digits_of_isDigit fun c hc => Decimal.isDigit_of_mem_ofNat hc) .absent .absent
    rwa [List.append_nil, List.append_nil] at h
  rw [Decimal.ofInt]
  split
  · rename_i hneg
    exact .negative (decide_eq_true hneg) hdigits
  · rename_i hneg
    exact .positive (decide_eq_false hneg) hdigits

end Reading

/-! ## Values -/

namespace Json
open Reading

mutual

/-- What a written value reads as. -/
def reading : Json → Reading
  | .null => .null
  | .bool b => .bool b
  | .int n => .int n
  | .str s => .str (some s)
  | .arr items => .arr (itemReadings items) true
  | .obj members => .obj (memberReadings members) true
termination_by structural v => v

/-- What the items of a list read as. -/
def itemReadings : List Json → List Reading
  | [] => []
  | v :: vs => v.reading :: itemReadings vs
termination_by structural vs => vs

/-- What one member of an object reads as. -/
def memberReading : String × Json → Option String × Reading
  | (key, v) => (some key, v.reading)
termination_by structural m => m

/-- What the members of an object read as. -/
def memberReadings : List (String × Json) → List (Option String × Reading)
  | [] => []
  | m :: ms => memberReading m :: memberReadings ms
termination_by structural ms => ms

end

mutual

/-- Every number in a value has at most sixty-four bits, its sign aside. -/
def Small : Json → Prop
  | .int n => n.natAbs ≤ maxWord
  | .arr items => AreSmall items
  | .obj members => MembersSmall members
  | .null => True
  | .bool _ => True
  | .str _ => True
termination_by structural v => v

/-- Every number in the items is small. -/
def AreSmall : List Json → Prop
  | [] => True
  | v :: vs => v.Small ∧ AreSmall vs
termination_by structural vs => vs

/-- Every number in a member is small. -/
def MemberSmall : String × Json → Prop
  | (_, v) => v.Small
termination_by structural m => m

/-- Every number in the members is small. -/
def MembersSmall : List (String × Json) → Prop
  | [] => True
  | m :: ms => MemberSmall m ∧ MembersSmall ms
termination_by structural ms => ms

end

theorem written_quote (s : String) : Written (.str (some s)) ((quote s).map some) := by
  rw [← joinText?_map_char]
  exact .text (quoted_quoteTail s.toList)

theorem named_quote (s : String) : Named (some s) ((quote s).map some) := by
  have h := Named.mk .nil (quoted_quoteTail s.toList) .nil
  rw [List.nil_append, List.append_nil, joinText?_map_char] at h
  exact h

mutual

/-- **What is written for a value is JSON for what the value reads as.** -/
theorem written_chars : (v : Json) → v.Small → Written v.reading (v.chars.map some)
  | .null, _ => .null
  | .bool true, _ => .isTrue
  | .bool false, _ => .isFalse
  | .int n, h => by
    rw [chars, reading, ← Numeral.reading_ofInt h]
    exact .number (Numeral.written_ofInt n)
  | .str s, _ => written_quote s
  | .arr [], _ => .list (.nothing .nil)
  | .arr (v :: vs), h => by
    rw [Small, AreSmall] at h
    rw [chars, reading, itemReadings, List.map_cons, List.map_append]
    exact .list (listed_itemsTail vs h.2 (written_chars v h.1).spaced)
  | .obj [], _ => .object (.nothing .nil)
  | .obj (m :: ms), h => by
    rw [Small, MembersSmall] at h
    rw [chars, reading, memberReadings, List.map_cons, List.map_append]
    exact .object (listed_membersTail ms h.2 (member_memberChars m h.1))
termination_by structural v => v

theorem listed_itemsTail : (vs : List Json) → AreSmall vs → ∀ {w : Reading} {s : Source},
    Spaced w s → Listed Spaced ']' (w :: itemReadings vs) (s ++ (itemsTail vs).map some)
  | [], _, _, _, hw => .last hw
  | v :: vs, h, _, _, hw => by
    rw [AreSmall] at h
    rw [itemsTail, itemReadings, List.map_cons, List.map_append]
    exact .more hw (listed_itemsTail vs h.2 (written_chars v h.1).spaced)
termination_by structural vs => vs

theorem member_memberChars : (m : String × Json) → MemberSmall m →
    Member (memberReading m) ((memberChars m).map some)
  | (key, v), h => by
    rw [memberChars, memberReading, List.map_append, List.map_cons]
    exact .mk (named_quote key) (written_chars v h).spaced
termination_by structural m => m

theorem listed_membersTail : (ms : List (String × Json)) → MembersSmall ms →
    ∀ {m : Option String × Reading} {s : Source}, Member m s →
      Listed Member '}' (m :: memberReadings ms) (s ++ (membersTail ms).map some)
  | [], _, _, _, hm => .last hm
  | m :: ms, h, _, _, hm => by
    rw [MembersSmall] at h
    rw [membersTail, memberReadings, List.map_cons, List.map_append]
    exact .more hm (listed_membersTail ms h.2 (member_memberChars m h.1))
termination_by structural ms => ms

end

end Json
end AccessControl
