import AccessControl.Proofs.Jwt.Signer

/-! # What a signer objects to its own tokens

A signer takes back every token that it signed unless it objects to the claims: to a negative
time, to the instant, to the issuer or to the audience.  `Signer.objections` lists what it can
object in the order in which it does, and the first objection that applies is the rejection.
None of them is about the signature.
-/
namespace AccessControl.Jwt.Signer

variable (s : Signer) (now : Instant) (c : Token.Claims)

/-- What can be objected to claims at an instant, in order, and whether it applies. -/
def objections : List (Bool × Rejection) :=
  [(c.expiresAt < 0 ∨ c.notBefore < 0, Defect.time.rejection),
   (c.expiresAt < now.seconds ∨ now.seconds < c.notBefore, .expired),
   (c.issuer ≠ s.issuer, .wrongIssuer),
   (c.audience ≠ s.audience, .wrongAudience)]

/-- The first objection that applies. -/
def firstObjection? : Option Rejection := ((s.objections now c).find? Prod.fst).map Prod.snd

/-- Claims are checked by looking for an objection. -/
theorem checkClaims_eq :
    s.checkClaims now c =
      match s.firstObjection? now c with
      | some rejection => .error rejection
      | none => .ok () := by
  unfold checkClaims firstObjection? objections
  by_cases hnegative : c.expiresAt < 0 ∨ c.notBefore < 0
  · simp [hnegative]
  by_cases hover : c.expiresAt < now.seconds
  · simp [hnegative, hover]
  by_cases hearly : now.seconds < c.notBefore
  · simp [hnegative, hover, hearly]
  by_cases hissuer : c.issuer = s.issuer
  · by_cases haudience : c.audience = s.audience
    · simp [hnegative, hover, hearly, hissuer, haudience]
    · simp [hnegative, hover, hearly, hissuer, haudience]
  · simp [hnegative, hover, hearly, hissuer]

/-- No objection is about the signature. -/
theorem firstObjection?_ne_invalidSignature :
    s.firstObjection? now c ≠ some .invalidSignature := by
  intro h
  obtain ⟨objection, hfound, hrejection⟩ := Option.map_eq_some_iff.mp h
  have hmem : objection ∈ s.objections now c := List.mem_of_find?_eq_some hfound
  simp only [objections, List.mem_cons, List.not_mem_nil, or_false] at hmem
  rcases hmem with rfl | rfl | rfl | rfl <;> cases hrejection

/-- A signed token is refused with the first objection to its claims, or says them. -/
theorem verify_sign_eq :
    s.verify now (s.sign c) =
      match s.firstObjection? now c with
      | some rejection => .error rejection
      | none => .ok c := by
  rw [verify_sign, checkClaims_eq]
  cases s.firstObjection? now c with
  | some rejection => rfl
  | none => rfl

/-- A signed token is accepted exactly if its claims pass their checks. -/
theorem verify_sign_eq_ok_iff :
    s.verify now (s.sign c) = .ok c ↔ s.checkClaims now c = .ok () := by
  rw [verify_sign]
  constructor
  · intro h
    cases hcheck : s.checkClaims now c with
    | error rejection =>
      rw [hcheck] at h
      cases h
    | ok _ => rfl
  · intro h
    rw [h]
    rfl

theorem new_eq_ok {secret issuer audience : String}
    (h : minSecretLength ≤ (Utf8.encode secret.toList).length) :
    new secret issuer audience = .ok ⟨Utf8.encode secret.toList, issuer, audience⟩ := by
  unfold new
  rw [if_neg (by omega)]

/-- **Signing and verifying agree.**  A secret of enough octets gives a signer that takes back
the claims it signed exactly if their times are in order around the instant and they name its
issuer and audience.  Otherwise the rejection is the first objection, which is never that the
signature is wrong. -/
theorem sign_then_verify (secret issuer audience : String)
    (hsecret : 32 ≤ (Utf8.encode secret.toList).length) :
    ∃ s, new secret issuer audience = .ok s ∧ ∀ (now : Instant) (c : Token.Claims),
      (s.verify now (s.sign c) = .ok c ↔
        0 ≤ c.notBefore ∧ 0 ≤ c.expiresAt ∧ c.notBefore ≤ now.seconds ∧
          now.seconds ≤ c.expiresAt ∧ c.issuer = issuer ∧ c.audience = audience) ∧
      (s.verify now (s.sign c) =
        match s.firstObjection? now c with
        | some rejection => .error rejection
        | none => .ok c) ∧
      s.verify now (s.sign c) ≠ .error .invalidSignature := by
  refine ⟨_, new_eq_ok hsecret, fun now c => ⟨?_, verify_sign_eq .., ?_⟩⟩
  · rw [verify_sign_eq_ok_iff, checkClaims_iff]
    constructor
    · rintro ⟨hexpires, hbefore, hover, hearly, hissuer, haudience⟩
      exact ⟨hbefore, hexpires, hearly, hover, hissuer, haudience⟩
    · rintro ⟨hbefore, hexpires, hearly, hover, hissuer, haudience⟩
      exact ⟨hexpires, hbefore, hover, hearly, hissuer, haudience⟩
  · rw [verify_sign_eq]
    cases h : firstObjection? _ now c with
    | none =>
      intro hrejection
      cases hrejection
    | some rejection =>
      intro hrejection
      cases hrejection
      exact firstObjection?_ne_invalidSignature _ now c h

/-- Claims that hold from the thirtieth second to the sixtieth. -/
def minute : Token.Claims where
  subject := "1"
  issuer := "here"
  audience := "there"
  issuedAt := 30
  notBefore := 30
  expiresAt := 60
  tokenId := "id"
  stamp? := none
  key? := none
  kind? := none
  refreshKey? := none

/-- A token for the second half of a minute, taken back at its last second and not at the next. -/
theorem sign_then_verify_at_last_second :
    32 ≤ (Utf8.encode "thirty-two octets are the secret".toList).length ∧
      ∃ s, new "thirty-two octets are the secret" "here" "there" = .ok s ∧
        s.verify ⟨60_000_000_000, by decide, by decide⟩ (s.sign minute) = .ok minute ∧
        s.verify ⟨61_000_000_000, by decide, by decide⟩ (s.sign minute) = .error .expired := by
  have hsecret : 32 ≤ (Utf8.encode "thirty-two octets are the secret".toList).length := by decide
  obtain ⟨s, hnew, hall⟩ := sign_then_verify _ "here" "there" hsecret
  refine ⟨hsecret, s, hnew, (hall _ _).1.mpr (by decide), ?_⟩
  obtain rfl := Except.ok.inj (hnew.symm.trans (new_eq_ok hsecret))
  exact (hall _ _).2.1

end AccessControl.Jwt.Signer
