import AccessControl.Http.Server
import AccessControl.Proofs.Jwt.Signer
import AccessControl.Proofs.Text.Decimal

/-! # The token that a request brings

A request brings a token in the first of its headers that is named for it: there the token stands
after the scheme, possibly with blanks around it (`Request.Brings`).  Nothing else is taken for a
token, and whatever a signer signs can be brought (`brings_sign`).
-/
namespace AccessControl.Http
variable {r : Request} {token : String}

theorem get?_cons {name given value : String} (others : Headers)
    (h : sameIgnoringCase given name = true) :
    Headers.get? ((given, value) :: others) name = some value := by
  have hfind : ((given, value) :: others).find? (fun header => sameIgnoringCase header.1 name) =
      some (given, value) := List.find?_cons_of_pos h
  rw [Headers.get?, hfind]
  rfl

/-- **A request brings a token**: its first authorization header can be read as a text, and is the
scheme with a token after it that is not blank. -/
def Request.Brings (r : Request) (token : String) : Prop :=
  ∃ value rest, r.headers.get? "authorization" = some value ∧
    (∀ c ∈ value.toList, isVisible c = true) ∧ value.toList = scheme.toList ++ rest ∧
    token = trim (String.ofList rest) ∧ token ≠ ""

theorem visible?_eq_some_iff {value text : String} :
    visible? value = some text ↔ text = value ∧ ∀ c ∈ value.toList, isVisible c = true := by
  rw [visible?, ← List.all_eq_true]
  split
  · rename_i h
    rw [Option.some.injEq, and_iff_left h, eq_comm]
  · rename_i h
    exact iff_of_false nofun fun hand => h hand.2

theorem drop_scheme {value rest : List Char} (h : value = scheme.toList ++ rest) :
    value.drop scheme.length = rest := by
  rw [h, ← String.length_toList, List.drop_left]

/-- **What is taken for the token of a request is what it brings.** -/
theorem bearerToken_eq_ok_iff : bearerToken r = .ok token ↔ r.Brings token := by
  rw [bearerToken]
  constructor
  · intro h
    split at h
    · cases h
    · rename_i value hvalue
      obtain ⟨given, hgiven, hvisible⟩ := Option.bind_eq_some_iff.mp hvalue
      obtain ⟨rfl, hall⟩ := visible?_eq_some_iff.mp hvisible
      dsimp only at h
      split at h
      · rename_i hscheme
        obtain rfl := Except.ok.inj h
        rw [Bool.and_eq_true, List.isPrefixOf_iff_prefix, Bool.not_eq_true',
          String.isEmpty_eq_false_iff] at hscheme
        obtain ⟨⟨rest, hrest⟩, hne⟩ := hscheme
        rw [drop_scheme hrest.symm] at hne ⊢
        exact ⟨value, rest, hgiven, hall, hrest.symm, rfl, hne⟩
      · cases h
  · rintro ⟨value, rest, hvalue, hall, hrest, rfl, hne⟩
    have hvisible : (r.headers.get? "authorization").bind visible? = some value := by
      rw [hvalue, Option.bind_some, visible?_eq_some_iff]
      exact ⟨rfl, hall⟩
    have hscheme : scheme.toList.isPrefixOf value.toList = true :=
      List.isPrefixOf_iff_prefix.mpr ⟨rest, hrest.symm⟩
    rw [hvisible]
    dsimp only
    rw [drop_scheme hrest, hscheme, String.isEmpty_eq_false_iff.mpr hne]
    rfl

/-- A request without a token is refused at once. -/
theorem bearerToken_cases (r : Request) :
    (∃ token, bearerToken r = .ok token ∧ r.Brings token) ∨
      bearerToken r = .error (.unauthorized "bearer token required") := by
  cases h : bearerToken r with
  | ok token => exact .inl ⟨token, rfl, bearerToken_eq_ok_iff.mp h⟩
  | error failure =>
    right
    rw [bearerToken] at h
    split at h
    · exact h.symm
    · dsimp only at h
      split at h
      · cases h
      · exact h.symm

/-! ## Tokens that were signed -/

/-- What is signed can stand in a header, and has no blanks in it. -/
theorem visible_of_mem_sign {signer : Jwt.Signer} {claims : Token.Claims} {c : Char}
    (h : c ∈ (signer.sign claims).toList) : isVisible c = true ∧ isBlank c = false := by
  have hsymbols : ∀ n : Fin 64, isVisible (Base64Url.symbol n) = true ∧
      isBlank (Base64Url.symbol n) = false := by decide
  have hencoded : ∀ octets, c ∈ Base64Url.encode octets →
      isVisible c = true ∧ isBlank c = false := by
    intro octets hc
    obtain ⟨n, hn, rfl⟩ := Base64Url.exists_symbol_of_mem_encode hc
    exact hsymbols ⟨n, hn⟩
  rw [Jwt.Signer.sign, String.toList_ofList, Jwt.Signer.message] at h
  rcases List.mem_append.mp h with hmessage | hsignature
  · rcases List.mem_append.mp hmessage with hheader | hclaims
    · exact hencoded _ hheader
    · rcases List.mem_cons.mp hclaims with rfl | hclaims
      · decide
      · exact hencoded _ hclaims
  · rcases List.mem_cons.mp hsignature with rfl | hsignature
    · decide
    · exact hencoded _ hsignature

theorem sign_ne_empty (signer : Jwt.Signer) (claims : Token.Claims) : signer.sign claims ≠ "" := by
  intro h
  have hdot : '.' ∈ (signer.sign claims).toList := by
    rw [Jwt.Signer.sign, String.toList_ofList]
    exact List.mem_append_right _ List.mem_cons_self
  rw [h] at hdot
  cases hdot

/-- **Every token that is signed can be brought.** -/
theorem brings_sign {signer : Jwt.Signer} {claims : Token.Claims}
    (h : r.headers.get? "authorization" = some (scheme ++ signer.sign claims)) :
    r.Brings (signer.sign claims) := by
  refine ⟨_, (signer.sign claims).toList, h, fun c hc => ?_, String.toList_append .., ?_,
    sign_ne_empty signer claims⟩
  · have hscheme : scheme.toList.all isVisible = true := by decide
    rw [String.toList_append] at hc
    rcases List.mem_append.mp hc with hc | hc
    · exact List.all_eq_true.mp hscheme c hc
    · exact (visible_of_mem_sign hc).1
  · rw [trim, String.toList_ofList, trimChars_eq_self fun c hc => (visible_of_mem_sign hc).2,
      String.ofList_toList]

end AccessControl.Http
