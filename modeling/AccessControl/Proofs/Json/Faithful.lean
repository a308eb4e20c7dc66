import AccessControl.Json.Record
import AccessControl.Proofs.Json.Writing

/-! # Values that read back as they were written

A type is faithful if each of its values reads back from the text that is written for it
(`Faithful`).
-/
namespace AccessControl.Json

/-- A type whose values read back from what is written for them. -/
class Faithful (α : Type) [Form α] : Prop where
  /-- No number that is written has more than sixty-four bits. -/
  small : ∀ a : α, (Form.toJson a).Small
  /-- What is written reads as the value. -/
  read_reading : ∀ a : α, Form.read (Form.toJson a).reading = .ok a

theorem source_text (v : Json) : Reading.source v.text = v.chars.map some := by
  rw [Reading.source, text, String.toList_ofList]

/-- **A source is read as a value exactly if it is JSON, and this reads as the value.** -/
theorem ofSource_eq_ok_iff {α : Type} {read : Reader α} {s : Reading.Source} {a : α} :
    ofSource read s = .ok a ↔ ∃ v, Reading.Spaced v s ∧ read v = .ok a := by
  simp only [← Reading.ofSource_eq_iff]
  rw [ofSource]
  obtain ⟨v, alone⟩ := Reading.ofSource s
  dsimp only
  rw [Except.bind_eq_ok_iff]
  constructor
  · rintro ⟨b, hread, h⟩
    split at h
    · rename_i halone
      obtain rfl := Except.ok.inj h
      exact ⟨v, by rw [halone], hread⟩
    · cases h
  · rintro ⟨v', heq, hread⟩
    obtain ⟨rfl, rfl⟩ := Prod.mk.inj heq
    exact ⟨a, hread, if_pos rfl⟩

section
variable {α : Type} [Form α] [Faithful α] {a b : α}

/-- **What is written for a value decodes to the value.** -/
theorem decode_write (a : α) : decode (write a) = .ok a := by
  rw [decode, write, source_text, ofSource_eq_ok_iff]
  exact ⟨_, (written_chars _ (Faithful.small a)).spaced, Faithful.read_reading a⟩

@[simp] theorem decode?_write (a : α) : decode? (write a) = some a := by
  rw [decode?, decode_write]
  rfl

theorem eq_of_decode?_write (h : decode? (write a) = some b) : b = a := by
  rw [decode?_write] at h
  exact (Option.some.inj h).symm

theorem write_injective (h : write a = write b) : a = b := by
  have hwritten := decode?_write a
  rw [h] at hwritten
  exact eq_of_decode?_write hwritten

end

/-! ## Numbers that are written -/

theorem small_int64 (n : Int64) : (Json.int n.toInt).Small := by
  have hlow : -9223372036854775808 ≤ n.toInt := n.minValue_le_toInt
  have hhigh : n.toInt ≤ 9223372036854775807 := n.toInt_le
  rw [Small, Reading.maxWord]
  omega

theorem areSmall_iff {vs : List Json} : AreSmall vs ↔ ∀ v ∈ vs, v.Small := by
  induction vs with
  | nil => simp [AreSmall]
  | cons v vs ih => simp [AreSmall, ih]

theorem membersSmall_iff {ms : List (String × Json)} : MembersSmall ms ↔ ∀ m ∈ ms, m.2.Small := by
  induction ms with
  | nil => simp [MembersSmall]
  | cons m ms ih =>
    obtain ⟨key, v⟩ := m
    rw [MembersSmall, ih, MemberSmall, List.forall_mem_cons]

end AccessControl.Json
