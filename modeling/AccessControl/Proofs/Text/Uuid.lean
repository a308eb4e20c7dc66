import AccessControl.Proofs.Text.Decimal
import Mathlib.Data.List.Forall2

/-! # Printed identifiers read back

A UUID is printed in one form only and read in four (`Uuid.Spelled`), with its digits in either
case.  The forms differ in their lengths or in how they begin, so reading takes out what stands
around the digits and reads these.
-/
namespace AccessControl
namespace Uuid

theorem length_hyphenate {sizes : List Nat} {cs : List Char}
    (h : sizes.foldr (· + ·) 0 ≤ cs.length) :
    (hyphenate sizes cs).length = cs.length + sizes.length := by
  induction sizes generalizing cs with
  | nil => rfl
  | cons n sizes ih =>
    rw [List.foldr_cons] at h
    have hdrop : sizes.foldr (· + ·) 0 ≤ (cs.drop n).length := by rw [List.length_drop]; omega
    have hrest := ih hdrop
    simp only [hyphenate, List.length_append, List.length_cons, hrest, List.length_take,
      List.length_drop]
    omega

/-- Taking out the hyphens undoes putting them in. -/
theorem unhyphenate?_hyphenate {sizes : List Nat} {cs : List Char}
    (h : sizes.foldr (· + ·) 0 ≤ cs.length) :
    unhyphenate? sizes (hyphenate sizes cs) = some cs := by
  induction sizes generalizing cs with
  | nil => rfl
  | cons n sizes ih =>
    rw [List.foldr_cons] at h
    have hdrop : sizes.foldr (· + ·) 0 ≤ (cs.drop n).length := by rw [List.length_drop]; omega
    have hrest := ih hdrop
    have htake : (cs.take n).length = n := by rw [List.length_take]; omega
    simp only [hyphenate, unhyphenate?, List.drop_left' htake, hrest, List.take_left' htake,
      Option.map_some, List.take_append_drop]

/-! ## Digits -/

theorem range_of_hexDigit? {c : Char} {d : Fin 16} (h : hexDigit? c = some d) :
    48 ≤ c.toNat ∧ c.toNat < 103 := by
  have hrange : ∀ {low high : Char}, low ≤ c ∧ c ≤ high →
      low.toNat ≤ c.toNat ∧ c.toNat ≤ high.toNat := fun h => h
  rw [hexDigit?] at h
  split at h
  · rename_i hc
    have hbounds : 48 ≤ c.toNat ∧ c.toNat ≤ 57 := hrange hc
    omega
  · split at h
    · rename_i hc
      have hbounds : 97 ≤ c.toNat ∧ c.toNat ≤ 102 := hrange hc
      omega
    · split at h
      · rename_i hc
        have hbounds : 65 ≤ c.toNat ∧ c.toNat ≤ 70 := hrange hc
        omega
      · cases h

theorem hexDigit?_eq_some_iff {c : Char} {d : Fin 16} :
    hexDigit? c = some d ↔ c = hexChar d ∨ c = (hexChar d).toUpper := by
  have hchars : ∀ n < 103, 48 ≤ n → ∀ d, hexDigit? (Char.ofNat n) = some d →
      Char.ofNat n = hexChar d ∨ Char.ofNat n = (hexChar d).toUpper := by decide
  constructor
  · intro h
    obtain ⟨hlow, hhigh⟩ := range_of_hexDigit? h
    rw [← Char.ofNat_toNat c] at h ⊢
    exact hchars _ hhigh hlow d h
  · rintro (rfl | rfl)
    · exact hexDigit?_hexChar d
    · revert d
      decide

/-- Characters are the digits of a number in either case. -/
def SpellsDigits (ds : List (Fin 16)) (cs : List Char) : Prop :=
  List.Forall₂ (fun d c => c = hexChar d ∨ c = (hexChar d).toUpper) ds cs

theorem mapM_hexDigit?_eq_some_iff {cs : List Char} {ds : List (Fin 16)} :
    cs.mapM hexDigit? = some ds ↔ SpellsDigits ds cs := by
  induction cs generalizing ds with
  | nil =>
    rw [SpellsDigits, List.forall₂_nil_right_iff, List.mapM_nil]
    exact ⟨fun h => (Option.some.inj h).symm, fun h => congrArg some h.symm⟩
  | cons c cs ih =>
    rw [List.mapM_cons, SpellsDigits]
    constructor
    · intro h
      obtain ⟨d, hd, h⟩ := Option.bind_eq_some_iff.mp h
      obtain ⟨rest, hrest, h⟩ := Option.bind_eq_some_iff.mp h
      obtain rfl := Option.some.inj h
      exact .cons (hexDigit?_eq_some_iff.mp hd) (ih.mp hrest)
    · intro h
      cases h with
      | cons hd hrest =>
        rw [hexDigit?_eq_some_iff.mpr hd, ih.mpr hrest]
        rfl

theorem ofDigits?_eq_some_iff {cs : List Char} {u : Uuid} :
    ofDigits? cs = some u ↔ SpellsDigits u.digits cs := by
  rw [ofDigits?, Option.bind_eq_bind, Option.bind_eq_some_iff]
  constructor
  · rintro ⟨ds, hds, h⟩
    split at h
    · obtain rfl := Option.some.inj h
      exact mapM_hexDigit?_eq_some_iff.mp hds
    · cases h
  · intro h
    exact ⟨u.digits, mapM_hexDigit?_eq_some_iff.mpr h, dif_pos u.length_eq⟩

/-- Hyphens are taken out of exactly what they can be put into. -/
theorem unhyphenate?_eq_some_iff {sizes : List Nat} {cs ds : List Char} :
    unhyphenate? sizes cs = some ds ↔
      cs = hyphenate sizes ds ∧ sizes.foldr (· + ·) 0 ≤ ds.length := by
  induction sizes generalizing cs ds with
  | nil =>
    rw [unhyphenate?, hyphenate, List.foldr_nil]
    exact ⟨fun h => ⟨Option.some.inj h, Nat.zero_le _⟩, fun h => congrArg some h.1⟩
  | cons n sizes ih =>
    constructor
    · intro h
      rw [unhyphenate?] at h
      split at h
      · rename_i rest hdrop
        obtain ⟨ds', hds', rfl⟩ := Option.map_eq_some_iff.mp h
        obtain ⟨rfl, hlength⟩ := ih.mp hds'
        have htake : (cs.take n).length = n := by
          have hlength' := congrArg List.length hdrop
          rw [List.length_drop, List.length_cons] at hlength'
          rw [List.length_take]
          omega
        rw [hyphenate, List.take_left' htake, List.drop_left' htake, ← hdrop,
          List.take_append_drop, List.foldr_cons, List.length_append, htake]
        exact ⟨rfl, Nat.add_le_add_left hlength n⟩
      · cases h
    · rintro ⟨rfl, hlength⟩
      exact unhyphenate?_hyphenate hlength

theorem ofHyphenated?_eq_some_iff {cs : List Char} {u : Uuid} :
    ofHyphenated? cs = some u ↔ ∃ ds, SpellsDigits u.digits ds ∧ cs = hyphenate groups ds := by
  rw [ofHyphenated?, Option.bind_eq_some_iff]
  constructor
  · rintro ⟨ds, hds, h⟩
    exact ⟨ds, ofDigits?_eq_some_iff.mp h, (unhyphenate?_eq_some_iff.mp hds).1⟩
  · rintro ⟨ds, hds, rfl⟩
    have hlength : ds.length = 32 := (List.Forall₂.length_eq hds).symm.trans u.length_eq
    refine ⟨ds, unhyphenate?_hyphenate ?_, ofDigits?_eq_some_iff.mpr hds⟩
    rw [hlength]
    decide

/-! ## Every form that is read -/

/-- **The forms in which an identifier is written**: its digits, in either case, alone or in groups;
the groups may stand in braces or after a prefix in any case. -/
inductive Spelled (u : Uuid) : List Char → Prop where
  | bare {ds : List Char} (h : SpellsDigits u.digits ds) : u.Spelled ds
  | grouped {ds : List Char} (h : SpellsDigits u.digits ds) : u.Spelled (hyphenate groups ds)
  | braced {ds : List Char} (h : SpellsDigits u.digits ds) :
    u.Spelled ('{' :: (hyphenate groups ds ++ ['}']))
  | urn {ds start : List Char} (h : SpellsDigits u.digits ds)
    (hstart : start.map Char.toLower = "urn:uuid:".toList) :
    u.Spelled (start ++ hyphenate groups ds)

theorem length_hyphenate_of_spellsDigits {u : Uuid} {ds : List Char}
    (h : SpellsDigits u.digits ds) : (hyphenate groups ds).length = 36 := by
  have hlength : ds.length = 32 := (List.Forall₂.length_eq h).symm.trans u.length_eq
  have hsum : groups.foldr (· + ·) 0 ≤ ds.length := by
    rw [hlength]
    decide
  rw [length_hyphenate hsum, hlength]
  decide

/-- What is read as an identifier is one of these forms. -/
theorem spelled_of_ofChars? {cs : List Char} {u : Uuid} (h : ofChars? cs = some u) :
    u.Spelled cs := by
  rw [ofChars?] at h
  split at h
  · exact .bare (ofDigits?_eq_some_iff.mp h)
  · split at h
    · obtain ⟨ds, hds, rfl⟩ := ofHyphenated?_eq_some_iff.mp h
      exact .grouped hds
    · split at h
      · split at h
        · rename_i hbraces
          obtain ⟨inside, rfl⟩ := List.head?_eq_some_iff.mp hbraces.1
          obtain ⟨before, hbefore⟩ := List.getLast?_eq_some_iff.mp hbraces.2
          cases before with
          | nil => exact absurd (List.cons.inj hbefore).1 (by decide)
          | cons c before =>
            obtain ⟨-, rfl⟩ := List.cons.inj hbefore
            have hinside : ofHyphenated? (before ++ ['}']).dropLast = some u := h
            rw [List.dropLast_concat] at hinside
            obtain ⟨ds, hds, rfl⟩ := ofHyphenated?_eq_some_iff.mp hinside
            exact .braced hds
        · cases h
      · split at h
        · rename_i hstart
          obtain ⟨ds, hds, hcs⟩ := ofHyphenated?_eq_some_iff.mp h
          rw [← List.take_append_drop 9 cs, hcs]
          exact .urn hds hstart
        · cases h

/-- The length of a text tells which form it may have. -/
theorem Spelled.ofChars?_eq {cs : List Char} {u : Uuid} (h : u.Spelled cs) :
    ofChars? cs = some u := by
  cases h with
  | bare h =>
    have hlength : cs.length = 32 := (List.Forall₂.length_eq h).symm.trans u.length_eq
    rw [ofChars?, if_pos hlength]
    exact ofDigits?_eq_some_iff.mpr h
  | grouped h =>
    have hlength := length_hyphenate_of_spellsDigits h
    rw [ofChars?, hlength, if_neg (by decide), if_pos rfl]
    exact ofHyphenated?_eq_some_iff.mpr ⟨_, h, rfl⟩
  | @braced ds h =>
    have hlength : ('{' :: (hyphenate groups ds ++ ['}'])).length = 38 := by
      rw [List.length_cons, List.length_append, length_hyphenate_of_spellsDigits h]
      rfl
    have hlast : ('{' :: (hyphenate groups ds ++ ['}'])).getLast? = some '}' := by
      rw [← List.cons_append]
      exact List.getLast?_concat
    rw [ofChars?, hlength, if_neg (by decide), if_neg (by decide), if_pos rfl,
      if_pos ⟨rfl, hlast⟩, List.tail_cons, List.dropLast_concat]
    exact ofHyphenated?_eq_some_iff.mpr ⟨_, h, rfl⟩
  | @urn ds start h hstart =>
    have hlength := length_hyphenate_of_spellsDigits h
    have hnine : start.length = 9 := by
      have hlength' := congrArg List.length hstart
      rwa [List.length_map] at hlength'
    rw [ofChars?, List.length_append, hlength, hnine, if_neg (by decide), if_neg (by decide),
      if_neg (by decide), List.take_left' hnine, if_pos hstart, List.drop_left' hnine]
    exact ofHyphenated?_eq_some_iff.mpr ⟨_, h, rfl⟩

/-- **Identifiers are read from these forms, and from nothing else.** -/
theorem ofChars?_eq_some_iff {cs : List Char} {u : Uuid} : ofChars? cs = some u ↔ u.Spelled cs :=
  ⟨spelled_of_ofChars?, Spelled.ofChars?_eq⟩

theorem ofText?_eq_some_iff {s : String} {u : Uuid} : ofText? s = some u ↔ u.Spelled s.toList :=
  ofChars?_eq_some_iff

/-! ## The printed form -/

theorem spellsDigits_map_hexChar (ds : List (Fin 16)) : SpellsDigits ds (ds.map hexChar) := by
  induction ds with
  | nil => exact .nil
  | cons d ds ih => exact .cons (.inl rfl) ih

/-- **A printed identifier reads back.** -/
@[simp] theorem ofChars?_chars (u : Uuid) : ofChars? u.chars = some u :=
  ofChars?_eq_some_iff.mpr (.grouped (spellsDigits_map_hexChar u.digits))

@[simp] theorem ofText?_text (u : Uuid) : ofText? u.text = some u := by
  rw [ofText?, text, String.toList_ofList, ofChars?_chars]

theorem text_injective {u v : Uuid} (h : u.text = v.text) : u = v := by
  have hv := ofText?_text u
  rw [h, ofText?_text] at hv
  exact (Option.some.inj hv).symm

theorem eq_hyphen_or_mem_of_mem_hyphenate {sizes : List Nat} {cs : List Char} {c : Char}
    (h : c ∈ hyphenate sizes cs) : c = '-' ∨ c ∈ cs := by
  induction sizes generalizing cs with
  | nil => exact .inr h
  | cons n sizes ih =>
    rw [hyphenate, List.mem_append, List.mem_cons] at h
    rcases h with h | rfl | h
    · exact .inr (List.mem_of_mem_take h)
    · exact .inl rfl
    · exact (ih h).imp_right List.mem_of_mem_drop

/-- A property of the hyphen and of the hexadecimal digits is one of every printed
character. -/
theorem forall_mem_chars {P : Char → Prop} (hyphen : P '-') (digit : ∀ d, P (hexChar d))
    {u : Uuid} {c : Char} (h : c ∈ u.chars) : P c := by
  rcases eq_hyphen_or_mem_of_mem_hyphenate h with rfl | h
  · exact hyphen
  · obtain ⟨d, -, rfl⟩ := List.mem_map.mp h
    exact digit d

/-- The identifier that is one digit throughout, that of a number. -/
def repeating (number : Nat) : Uuid :=
  ⟨List.replicate 32 ⟨number % 16, Nat.mod_lt _ (by decide)⟩, List.length_replicate⟩

end Uuid

/-- **A stamp reads back from its text.** -/
@[simp] theorem SecurityStamp.ofText_text (s : SecurityStamp) :
    SecurityStamp.ofText s.text = .ok s := by
  have hblank : ∀ c ∈ s.uuid.chars, isBlank c = false := fun c hc =>
    Uuid.forall_mem_chars (P := fun c => isBlank c = false) (by decide) (by decide) hc
  rw [SecurityStamp.ofText, SecurityStamp.text, Uuid.text, String.toList_ofList,
    trimChars_eq_self hblank, Uuid.ofChars?_chars]

theorem TokenKey.text_injective {k l : TokenKey} (h : k.text = l.text) : k = l := by
  cases k
  cases l
  exact congrArg TokenKey.mk (Uuid.text_injective h)

end AccessControl
