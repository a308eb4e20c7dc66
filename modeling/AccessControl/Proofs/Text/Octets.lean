import AccessControl.Text.Base64Url
import AccessControl.Text.Utf8

/-! # Characters and octets there and back

Characters read back from their octets, and octets from their written form in base 64.
That form is the only one: what is read in base 64 is what is written (`decode?_eq_some_iff`).
-/
namespace AccessControl

namespace Utf8

theorem tail?_ofNat (n : Nat) : tail? (UInt8.ofNat (n % 0x40 + 0x80)) = some (n % 0x40) := by
  have hnat : (UInt8.ofNat (n % 0x40 + 0x80)).toNat = n % 0x40 + 0x80 :=
    UInt8.toNat_ofNat_of_lt' (by change _ < 256; omega)
  rw [tail?, if_pos, hnat, Nat.add_sub_cancel]
  rw [UInt8.le_iff_toNat_le, UInt8.le_iff_toNat_le, hnat]
  show 128 ≤ _ ∧ _ ≤ 191
  omega

theorem char?_toNat {low : Nat} {c : Char} (h : low ≤ c.toNat) : char? low c.toNat = some c := by
  rw [char?, dif_pos ⟨h, c.valid⟩]
  rfl

variable {n : Nat} {b c d : UInt8} {rest : List UInt8}

theorem next?_one (h : n < 0x80) :
    next? (UInt8.ofNat n :: rest) = (char? 0 n).map (·, rest) := by
  have hnat : (UInt8.ofNat n).toNat = n :=
    UInt8.toNat_ofNat_of_lt' (by change _ < 256; omega)
  have hlow : UInt8.ofNat n < 0x80 := by
    rw [UInt8.lt_iff_toNat_lt, hnat]
    exact h
  unfold next?
  simp only [hlow, if_true, hnat]

theorem next?_two (h : n < 0x20) :
    next? (UInt8.ofNat (n + 0xc0) :: b :: rest) = (do
      let b ← tail? b
      let c ← char? 0x80 (n * 64 + b)
      return (c, rest)) := by
  have hnat : (UInt8.ofNat (n + 0xc0)).toNat = n + 0xc0 :=
    UInt8.toNat_ofNat_of_lt' (by change _ < 256; omega)
  unfold next?
  simp only [UInt8.lt_iff_toNat_lt, UInt8.le_iff_toNat_le, hnat, Nat.add_sub_cancel]
  rw [if_neg (by change ¬_ < 128; omega), if_pos (by change 192 ≤ _ ∧ _ ≤ 223; omega)]

theorem next?_three (h : n < 0x10) :
    next? (UInt8.ofNat (n + 0xe0) :: b :: c :: rest) = (do
      let b ← tail? b
      let c ← tail? c
      let c ← char? 0x800 ((n * 64 + b) * 64 + c)
      return (c, rest)) := by
  have hnat : (UInt8.ofNat (n + 0xe0)).toNat = n + 0xe0 :=
    UInt8.toNat_ofNat_of_lt' (by change _ < 256; omega)
  unfold next?
  simp only [UInt8.lt_iff_toNat_lt, UInt8.le_iff_toNat_le, hnat, Nat.add_sub_cancel]
  rw [if_neg (by change ¬_ < 128; omega), if_neg (by change ¬(192 ≤ _ ∧ _ ≤ 223); omega),
    if_pos (by change 224 ≤ _ ∧ _ ≤ 239; omega)]

theorem next?_four (h : n < 0x08) :
    next? (UInt8.ofNat (n + 0xf0) :: b :: c :: d :: rest) = (do
      let b ← tail? b
      let c ← tail? c
      let d ← tail? d
      let c ← char? 0x10000 (((n * 64 + b) * 64 + c) * 64 + d)
      return (c, rest)) := by
  have hnat : (UInt8.ofNat (n + 0xf0)).toNat = n + 0xf0 :=
    UInt8.toNat_ofNat_of_lt' (by change _ < 256; omega)
  unfold next?
  simp only [UInt8.lt_iff_toNat_lt, UInt8.le_iff_toNat_le, hnat, Nat.add_sub_cancel]
  rw [if_neg (by change ¬_ < 128; omega), if_neg (by change ¬(192 ≤ _ ∧ _ ≤ 223); omega),
    if_neg (by change ¬(224 ≤ _ ∧ _ ≤ 239); omega), if_pos (by change 240 ≤ _ ∧ _ ≤ 247; omega)]

/-- **A character reads back from its octets**, whatever follows them. -/
theorem next?_utf8EncodeChar (c : Char) (rest : List UInt8) :
    next? (String.utf8EncodeChar c ++ rest) = some (c, rest) := by
  have hmax : c.toNat < 0x110000 := by
    rcases c.valid with h | h
    · exact Nat.lt_trans h (by decide)
    · exact h.2
  have hval : c.val.toNat = c.toNat := rfl
  -- One case for each number of octets; every octet but the first has six bits of the character.
  rw [String.utf8EncodeChar, hval]
  split
  · rename_i h
    rw [List.cons_append, List.nil_append, next?_one (by omega), char?_toNat (Nat.zero_le _)]
    rfl
  · split
    · rename_i hlow h
      rw [List.cons_append, List.cons_append, List.nil_append, next?_two (by omega), tail?_ofNat]
      have hsum : c.toNat / 64 % 0x20 * 64 + c.toNat % 0x40 = c.toNat := by omega
      simp only [Option.bind_eq_bind, Option.bind_some, hsum]
      rw [char?_toNat (by omega)]
      rfl
    · split
      · rename_i hlow h
        rw [List.cons_append, List.cons_append, List.cons_append, List.nil_append,
          next?_three (by omega), tail?_ofNat, tail?_ofNat]
        have hsum : (c.toNat / 4096 % 0x10 * 64 + c.toNat / 64 % 0x40) * 64 + c.toNat % 0x40 =
            c.toNat := by omega
        simp only [Option.bind_eq_bind, Option.bind_some, hsum]
        rw [char?_toNat (by omega)]
        rfl
      · rw [List.cons_append, List.cons_append, List.cons_append, List.cons_append,
          List.nil_append, next?_four (by omega), tail?_ofNat, tail?_ofNat, tail?_ofNat]
        have hsum : ((c.toNat / 262144 % 0x08 * 64 + c.toNat / 4096 % 0x40) * 64 +
            c.toNat / 64 % 0x40) * 64 + c.toNat % 0x40 = c.toNat := by omega
        simp only [Option.bind_eq_bind, Option.bind_some, hsum]
        rw [char?_toNat (by omega)]
        rfl

theorem symbolsUpTo_encode {cs : List Char} {fuel : Nat} (h : (encode cs).length ≤ fuel) :
    symbolsUpTo fuel (encode cs) = cs.map some := by
  induction cs generalizing fuel with
  | nil => cases fuel <;> rfl
  | cons c cs ih =>
    have hencode : encode (c :: cs) = String.utf8EncodeChar c ++ encode cs := rfl
    obtain ⟨a, octets, hoctets⟩ :=
      List.exists_cons_of_ne_nil (String.utf8EncodeChar_ne_nil (c := c))
    rw [hencode, List.length_append, hoctets, List.length_cons] at h
    obtain ⟨fuel, rfl⟩ : ∃ n, fuel = n + 1 := ⟨fuel - 1, by omega⟩
    have hnext := next?_utf8EncodeChar c (encode cs)
    rw [hoctets, List.cons_append] at hnext
    rw [hencode, hoctets, List.cons_append, symbolsUpTo, hnext]
    dsimp only
    rw [ih (by omega), List.map_cons]

/-- **A text reads back from its octets.** -/
theorem symbols_encode (cs : List Char) : symbols (encode cs) = cs.map some :=
  symbolsUpTo_encode (Nat.le_refl _)

end Utf8

namespace Base64Url

theorem value?_symbol {n : Nat} (h : n < 64) : value? (symbol n) = some n := by
  have hall : ∀ d : Fin 64, value? (symbol d.val) = some d.val := by decide
  exact hall ⟨n, h⟩

/-- A character of the alphabet is the character of its number. -/
theorem symbol_value? {c : Char} {n : Nat} (h : value? c = some n) : n < 64 ∧ symbol n = c := by
  have hrange : ∀ {low high : Char}, low ≤ c ∧ c ≤ high →
      low.toNat ≤ c.toNat ∧ c.toNat ≤ high.toNat := fun h => h
  have hof : Char.ofNat c.toNat = c := Char.ofNat_toNat c
  unfold value? at h
  split at h
  · rename_i hupper
    obtain ⟨hlow, hhigh⟩ : 65 ≤ c.toNat ∧ c.toNat ≤ 90 := hrange hupper
    obtain rfl := Option.some.inj h
    refine ⟨by omega, ?_⟩
    rw [symbol, if_pos (by omega), Nat.sub_add_cancel hlow, hof]
  split at h
  · rename_i hlower
    obtain ⟨hlow, hhigh⟩ : 97 ≤ c.toNat ∧ c.toNat ≤ 122 := hrange hlower
    obtain rfl := Option.some.inj h
    refine ⟨by omega, ?_⟩
    rw [symbol, if_neg (by omega), if_pos (by omega), Nat.sub_add_cancel (by omega), hof]
  split at h
  · rename_i hdigit
    obtain ⟨hlow, hhigh⟩ : 48 ≤ c.toNat ∧ c.toNat ≤ 57 := hrange hdigit
    obtain rfl := Option.some.inj h
    refine ⟨by omega, ?_⟩
    rw [symbol, if_neg (by omega), if_neg (by omega), if_pos (by omega), Nat.add_sub_cancel, hof]
  split at h
  · rename_i hminus
    obtain rfl := Option.some.inj h
    exact ⟨by omega, hminus.symm⟩
  split at h
  · rename_i hunder
    obtain rfl := Option.some.inj h
    exact ⟨by omega, hunder.symm⟩
  · cases h

/-- **Octets read back from their written form.** -/
theorem decode?_encode (octets : List UInt8) : decode? (encode octets) = some octets := by
  -- Three octets at a time are written as four characters, and one or two at the end are left.
  induction octets using encode.induct with
  | case1 => rfl
  | case2 a =>
    have ha := a.toNat_lt
    rw [encode, decode?, value?_symbol (by omega), value?_symbol (by omega)]
    simp only [Option.bind_eq_bind, Option.bind_some]
    rw [if_pos (by omega)]
    have hfirst : a.toNat / 4 * 4 + a.toNat % 4 * 16 / 16 = a.toNat := by omega
    rw [hfirst, UInt8.ofNat_toNat]
  | case3 a b =>
    have ha := a.toNat_lt
    have hb := b.toNat_lt
    rw [encode, decode?, value?_symbol (by omega), value?_symbol (by omega),
      value?_symbol (by omega)]
    simp only [Option.bind_eq_bind, Option.bind_some]
    rw [if_pos (by omega)]
    have hfirst : a.toNat / 4 * 4 + (a.toNat % 4 * 16 + b.toNat / 16) / 16 = a.toNat := by omega
    have hsecond : (a.toNat % 4 * 16 + b.toNat / 16) % 16 * 16 + b.toNat % 16 * 4 / 4 =
        b.toNat := by omega
    rw [hfirst, hsecond, UInt8.ofNat_toNat, UInt8.ofNat_toNat]
  | case4 a b c rest ih =>
    have ha := a.toNat_lt
    have hb := b.toNat_lt
    have hc := c.toNat_lt
    rw [encode, decode?, value?_symbol (by omega), value?_symbol (by omega),
      value?_symbol (by omega), value?_symbol (by omega), ih]
    simp only [Option.bind_eq_bind, Option.bind_some]
    have hfirst : a.toNat / 4 * 4 + (a.toNat % 4 * 16 + b.toNat / 16) / 16 = a.toNat := by omega
    have hsecond : (a.toNat % 4 * 16 + b.toNat / 16) % 16 * 16 +
        (b.toNat % 16 * 4 + c.toNat / 64) / 4 = b.toNat := by omega
    have hthird : (b.toNat % 16 * 4 + c.toNat / 64) % 4 * 64 + c.toNat % 64 = c.toNat := by omega
    rw [hfirst, hsecond, hthird, UInt8.ofNat_toNat, UInt8.ofNat_toNat, UInt8.ofNat_toNat]

/-- **Characters are read only where they are the written form of what is read.** -/
theorem encode_of_decode? {cs : List Char} {octets : List UInt8} (h : decode? cs = some octets) :
    encode octets = cs := by
  induction cs using decode?.induct generalizing octets with
  | case1 =>
    obtain rfl := Option.some.inj h
    rfl
  | case2 => cases h
  | case3 w x =>
    simp only [decode?, Option.bind_eq_bind, Option.bind_eq_some_iff] at h
    obtain ⟨w', hw, x', hx, h⟩ := h
    obtain ⟨hw64, rfl⟩ := symbol_value? hw
    obtain ⟨hx64, rfl⟩ := symbol_value? hx
    split at h
    · obtain rfl := Option.some.inj h
      have hfirst : (w' * 4 + x' / 16) / 4 = w' := by omega
      have hsecond : (w' * 4 + x' / 16) % 4 * 16 = x' := by omega
      rw [encode, UInt8.toNat_ofNat_of_lt' (by change _ < 256; omega), hfirst, hsecond]
    · cases h
  | case4 w x y =>
    simp only [decode?, Option.bind_eq_bind, Option.bind_eq_some_iff] at h
    obtain ⟨w', hw, x', hx, y', hy, h⟩ := h
    obtain ⟨hw64, rfl⟩ := symbol_value? hw
    obtain ⟨hx64, rfl⟩ := symbol_value? hx
    obtain ⟨hy64, rfl⟩ := symbol_value? hy
    split at h
    · obtain rfl := Option.some.inj h
      have hfirst : (w' * 4 + x' / 16) / 4 = w' := by omega
      have hsecond : (w' * 4 + x' / 16) % 4 * 16 + (x' % 16 * 16 + y' / 4) / 16 = x' := by omega
      have hthird : (x' % 16 * 16 + y' / 4) % 16 * 4 = y' := by omega
      rw [encode, UInt8.toNat_ofNat_of_lt' (by change _ < 256; omega),
        UInt8.toNat_ofNat_of_lt' (by change _ < 256; omega), hfirst, hsecond, hthird]
    · cases h
  | case5 w x y z rest ih =>
    simp only [decode?, Option.bind_eq_bind, Option.bind_eq_some_iff] at h
    obtain ⟨w', hw, x', hx, y', hy, z', hz, tail, htail, h⟩ := h
    obtain ⟨hw64, rfl⟩ := symbol_value? hw
    obtain ⟨hx64, rfl⟩ := symbol_value? hx
    obtain ⟨hy64, rfl⟩ := symbol_value? hy
    obtain ⟨hz64, rfl⟩ := symbol_value? hz
    obtain rfl := Option.some.inj h
    have hfirst : (w' * 4 + x' / 16) / 4 = w' := by omega
    have hsecond : (w' * 4 + x' / 16) % 4 * 16 + (x' % 16 * 16 + y' / 4) / 16 = x' := by omega
    have hthird : (x' % 16 * 16 + y' / 4) % 16 * 4 + (y' % 4 * 64 + z') / 64 = y' := by omega
    have hfourth : (y' % 4 * 64 + z') % 64 = z' := by omega
    rw [encode, UInt8.toNat_ofNat_of_lt' (by change _ < 256; omega),
      UInt8.toNat_ofNat_of_lt' (by change _ < 256; omega),
      UInt8.toNat_ofNat_of_lt' (by change _ < 256; omega), hfirst, hsecond, hthird, hfourth,
      ih htail]

/-- **Octets have one written form, and nothing else is read.** -/
theorem decode?_eq_some_iff {cs : List Char} {octets : List UInt8} :
    decode? cs = some octets ↔ cs = encode octets := by
  constructor
  · intro h
    exact (encode_of_decode? h).symm
  · rintro rfl
    exact decode?_encode octets

end Base64Url
end AccessControl
