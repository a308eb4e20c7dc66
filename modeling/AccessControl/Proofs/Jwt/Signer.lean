import AccessControl.Jwt.Signer
import AccessControl.Proofs.Jwt.Claims
import AccessControl.Proofs.Store.Writes
import AccessControl.Proofs.Text.Octets

/-! # What is signed is verified

The dots of a signed token are found again because no part has one in it.  The signature is
the one of the same message, and the claims read back as they were written, so a token of the
signer is refused for its times, its issuer or its audience only.
-/
namespace AccessControl

namespace Base64Url

/-- Only characters of the alphabet are written. -/
theorem exists_symbol_of_mem_encode {octets : List UInt8} {c : Char} (h : c ∈ encode octets) :
    ∃ n, n < 64 ∧ c = symbol n := by
  induction octets using encode.induct with
  | case1 => exact absurd h List.not_mem_nil
  | case2 a =>
    have ha := a.toNat_lt
    rw [encode] at h
    rcases List.mem_cons.mp h with rfl | h
    · exact ⟨_, by omega, rfl⟩
    · obtain rfl := List.mem_singleton.mp h
      exact ⟨_, by omega, rfl⟩
  | case3 a b =>
    have ha := a.toNat_lt
    have hb := b.toNat_lt
    rw [encode] at h
    rcases List.mem_cons.mp h with rfl | h
    · exact ⟨_, by omega, rfl⟩
    rcases List.mem_cons.mp h with rfl | h
    · exact ⟨_, by omega, rfl⟩
    · obtain rfl := List.mem_singleton.mp h
      exact ⟨_, by omega, rfl⟩
  | case4 a b c' rest ih =>
    have ha := a.toNat_lt
    have hb := b.toNat_lt
    have hc := c'.toNat_lt
    rw [encode] at h
    rcases List.mem_cons.mp h with rfl | h
    · exact ⟨_, by omega, rfl⟩
    rcases List.mem_cons.mp h with rfl | h
    · exact ⟨_, by omega, rfl⟩
    rcases List.mem_cons.mp h with rfl | h
    · exact ⟨_, by omega, rfl⟩
    rcases List.mem_cons.mp h with rfl | h
    · exact ⟨_, by omega, rfl⟩
    · exact ih h

theorem not_dot_mem_encode (octets : List UInt8) : '.' ∉ encode octets := by
  intro h
  obtain ⟨n, hn, heq⟩ := exists_symbol_of_mem_encode h
  have hall : ∀ d : Fin 64, '.' ≠ symbol d.val := by decide
  exact hall ⟨n, hn⟩ heq

end Base64Url

namespace Jwt.Signer

/-- The last dot is found before characters that are none. -/
theorem splitLast?_append {before after : List Char} (h : '.' ∉ after) :
    splitLast? (before ++ '.' :: after) = some (before, after) := by
  have hreverse : (before ++ '.' :: after).reverse = after.reverse ++ '.' :: before.reverse := by
    simp
  have hno : ∀ c ∈ after.reverse, decide (c ≠ '.') = true := by
    intro c hc
    refine decide_eq_true fun hdot => h ?_
    rw [← hdot]
    exact List.mem_reverse.mp hc
  rw [splitLast?, hreverse, List.dropWhile_append_of_pos hno, List.takeWhile_append_of_pos hno]
  simp

theorem readPart_part {α : Type} {read : Json.Reader α} {v : Json} {a : α} (hv : v.Small)
    (h : read v.reading = .ok a) : readPart read (part v.chars) = .ok a := by
  have hsource : Json.ofSource read (v.chars.map some) = .ok a :=
    Json.ofSource_eq_ok_iff.mpr ⟨_, (Json.written_chars v hv).spaced, h⟩
  rw [readPart, part, Base64Url.decode?_encode]
  simp only [Utf8.symbols_encode, hsource]

theorem readHeader_header : readHeader header.reading = .ok .hs256 := rfl

/-- **A token of the signer is refused for its times, its issuer or its audience only**, and
otherwise gives the claims that were signed. -/
theorem verify_sign (s : Signer) (now : Instant) (c : Token.Claims) :
    s.verify now (s.sign c) = (s.checkClaims now c).map fun _ => c := by
  have hsignature : '.' ∉ s.signature (message c) := Base64Url.not_dot_mem_encode _
  have hpayload : '.' ∉ part (Json.Form.toJson c).chars := Base64Url.not_dot_mem_encode _
  have hheader : readPart readHeader (part header.chars) = .ok .hs256 :=
    readPart_part ⟨trivial, trivial, trivial⟩ readHeader_header
  have hclaims : readPart readClaims (part (Json.Form.toJson c).chars) = .ok c :=
    readPart_part (Json.Faithful.small c) (Json.Faithful.read_reading c)
  -- From the right: the signature, the payload, and the header is what is left.
  rw [verify, sign, String.toList_ofList, splitLast?_append hsignature]
  dsimp only
  rw [message, splitLast?_append hpayload]
  dsimp only
  rw [hheader, hclaims, ← message]
  simp only [failIf, ne_eq, not_true_eq_false, if_false]
  show ((s.checkClaims now c).bind fun _ => .ok c) = _
  cases s.checkClaims now c with
  | error rejection => rfl
  | ok _ => rfl

/-- **Claims hold exactly if their times and their names do.** -/
theorem checkClaims_iff (s : Signer) (now : Instant) (c : Token.Claims) :
    s.checkClaims now c = .ok () ↔ 0 ≤ c.expiresAt ∧ 0 ≤ c.notBefore ∧
      now.seconds ≤ c.expiresAt ∧ c.notBefore ≤ now.seconds ∧ c.issuer = s.issuer ∧
      c.audience = s.audience := by
  rw [checkClaims]
  constructor
  · intro h
    by_cases hnegative : c.expiresAt < 0 ∨ c.notBefore < 0
    · rw [if_pos hnegative] at h
      cases h
    rw [if_neg hnegative] at h
    by_cases hover : c.expiresAt < now.seconds
    · rw [if_pos hover] at h
      cases h
    rw [if_neg hover] at h
    by_cases hearly : now.seconds < c.notBefore
    · rw [if_pos hearly] at h
      cases h
    rw [if_neg hearly] at h
    by_cases hissuer : c.issuer ≠ s.issuer
    · rw [if_pos hissuer] at h
      cases h
    rw [if_neg hissuer] at h
    by_cases haudience : c.audience ≠ s.audience
    · rw [if_pos haudience] at h
      cases h
    rw [not_or] at hnegative
    exact ⟨Int64.not_lt.mp hnegative.1, Int64.not_lt.mp hnegative.2, Int64.not_lt.mp hover,
      Int64.not_lt.mp hearly, Decidable.not_not.mp hissuer, Decidable.not_not.mp haudience⟩
  · rintro ⟨hexpires, hbefore, hover, hearly, hissuer, haudience⟩
    rw [if_neg (not_or.mpr ⟨Int64.not_lt.mpr hexpires, Int64.not_lt.mpr hbefore⟩),
      if_neg (Int64.not_lt.mpr hover), if_neg (Int64.not_lt.mpr hearly),
      if_neg (not_not_intro hissuer), if_neg (not_not_intro haudience)]

/-- Claims that are checked and pass say what they said before. -/
theorem eq_of_checked {check : Except Rejection Unit} {c said : Token.Claims}
    (h : (check.map fun _ => c) = .ok said) : said = c := by
  cases check with
  | error rejection => cases h
  | ok _ => exact (Except.ok.inj h).symm

/-- A signed token says nothing but what was signed. -/
theorem eq_of_verify_sign {s : Signer} {now : Instant} {c said : Token.Claims}
    (h : s.verify now (s.sign c) = .ok said) : said = c :=
  eq_of_checked ((verify_sign ..).symm.trans h)

/-- **What a token says does not depend on when it is verified**, only whether it holds. -/
theorem verify_of_verify_eq_ok {s : Signer} {now : Instant} {token : String} {c : Token.Claims}
    (h : s.verify now token = .ok c) (now' : Instant) :
    s.verify now' token = (s.checkClaims now' c).map fun _ => c := by
  rw [verify] at h ⊢
  split at h
  · cases h
  · rename_i message signature hsignature
    split at h
    · cases h
    · rename_i header payload hpayload
      obtain ⟨method, hmethod, hrest⟩ := Except.bind_eq_ok_iff.mp h
      obtain ⟨_, hknown, hrest⟩ := Except.bind_eq_ok_iff.mp hrest
      obtain ⟨_, hsigned, hrest⟩ := Except.bind_eq_ok_iff.mp hrest
      obtain ⟨claims, hclaims, hrest⟩ := Except.bind_eq_ok_iff.mp hrest
      obtain ⟨_, -, hrest⟩ := Except.bind_eq_ok_iff.mp hrest
      obtain rfl := Except.ok.inj hrest
      -- All but the last check is the same at every instant.
      simp only [hmethod, hknown, hsigned, hclaims, bind, Except.bind, pure, Except.pure]
      cases s.checkClaims now' claims with
      | error rejection => rfl
      | ok _ => rfl

/-- A token says the same whenever it is verified. -/
theorem eq_of_verify_eq_ok {s : Signer} {now now' : Instant} {token : String}
    {c said : Token.Claims} (h : s.verify now token = .ok c) (h' : s.verify now' token = .ok said) :
    said = c :=
  eq_of_checked ((verify_of_verify_eq_ok h now').symm.trans h')

end Jwt.Signer
end AccessControl
