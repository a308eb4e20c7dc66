import AccessControl.Proofs.Jwt.Header
import AccessControl.Proofs.Jwt.Objections

/-! # Only genuine tokens are accepted

`Signer.Genuine` says what a genuine token is without saying how one is verified: three parts
with dots between and none inside, the last the signature of the others under the secret, the
header one of the signer's method, the payload the claims, and claims that hold.

* `genuine_of_verify`, `Genuine.verify`: a text is accepted as some claims exactly if it is
  genuine for them.
* `Genuine.dots`, `Genuine.symbols`, `Genuine.encoded`: so it has two dots and otherwise
  characters of the alphabet, and each part is the one written form of its octets.
* `genuine_joined`: a text that is joined from three parts and accepted is genuine with these.
-/
namespace AccessControl.Jwt.Signer

/-- The text before and after the last dot, and only that, is found. -/
theorem splitLast?_eq_some_iff {cs before after : List Char} :
    splitLast? cs = some (before, after) ↔ cs = before ++ '.' :: after ∧ '.' ∉ after := by
  constructor
  · intro h
    unfold splitLast? at h
    split at h
    · cases h
    · rename_i dot start hdrop
      obtain ⟨rfl, rfl⟩ := Prod.mk.inj (Option.some.inj h)
      have hdot : dot = '.' := by
        have hhead := List.head?_dropWhile_not (fun c => decide (c ≠ '.')) cs.reverse
        rw [hdrop] at hhead
        simpa using hhead
      refine ⟨?_, ?_⟩
      · have hcs : cs.reverse.takeWhile (· ≠ '.') ++ dot :: start = cs.reverse := by
          rw [← hdrop, List.takeWhile_append_dropWhile]
        have hreverse := congrArg List.reverse hcs
        rw [List.reverse_append, List.reverse_cons, List.reverse_reverse, hdot] at hreverse
        rw [List.append_assoc] at hreverse
        exact hreverse.symm
      · intro hmem
        have hall := List.all_eq_true.mp List.all_takeWhile _ (List.mem_reverse.mp hmem)
        exact of_decide_eq_true hall rfl
  · rintro ⟨rfl, hafter⟩
    exact splitLast?_append hafter

/-- What a part of a token carries: it is the written form of octets, and these are JSON for
something of a kind. -/
def Carries (part : List Char) (P : Reading → Prop) : Prop :=
  ∃ octets v, part = Base64Url.encode octets ∧ Reading.Spaced v (Utf8.symbols octets) ∧ P v

theorem readPart_eq_ok_iff {α : Type} {read : Json.Reader α} {part : List Char} {a : α} :
    readPart read part = .ok a ↔ Carries part fun v => read v = .ok a := by
  unfold readPart Carries
  constructor
  · intro h
    split at h
    · cases h
    · rename_i octets hoctets
      split at h
      · rename_i hread
        obtain rfl := Except.ok.inj h
        obtain ⟨v, hspaced, hread⟩ := Json.ofSource_eq_ok_iff.mp hread
        exact ⟨octets, v, Base64Url.decode?_eq_some_iff.mp hoctets, hspaced, hread⟩
      · cases h
  · rintro ⟨octets, v, rfl, hspaced, hread⟩
    rw [Base64Url.decode?_encode]
    simp only [Json.ofSource_eq_ok_iff.mpr ⟨v, hspaced, hread⟩]

/-- An object that holds claims: their fields, in any order, and no others but such as are passed
over. -/
def IsClaims (c : Token.Claims) (v : Reading) : Prop :=
  ∃ members, v = .obj members true ∧ Json.IsObject c.slots members

theorem readClaims_eq_ok_iff {v : Reading} {c : Token.Claims} :
    readClaims v = .ok c ↔ IsClaims c v := by
  rw [IsClaims]
  cases v with
  | arr items closed => exact iff_of_false nofun nofun
  | obj members closed =>
    refine Json.Spelled.reads.iff.trans ?_
    constructor
    · rintro ⟨h⟩
      exact ⟨members, rfl, h⟩
    · rintro ⟨_, heq, h⟩
      obtain ⟨rfl, rfl⟩ := Reading.obj.inj heq
      exact .object h
  | _ =>
    refine Json.Spelled.reads.iff.trans ?_
    exact iff_of_false nofun nofun

theorem readPart_readHeader_iff {part : List Char} {method : Method} :
    readPart readHeader part = .ok method ↔
      Carries part (Json.IsRecord (headerSlots method)) := by
  simp only [readPart_eq_ok_iff, readHeader_eq_ok_iff]

theorem readPart_readClaims_iff {part : List Char} {c : Token.Claims} :
    readPart readClaims part = .ok c ↔ Carries part (IsClaims c) := by
  simp only [readPart_eq_ok_iff, readClaims_eq_ok_iff]

/-- A part carries one thing only. -/
theorem Carries.both {part : List Char} {P Q : Reading → Prop} (h : Carries part P)
    (h' : Carries part Q) : ∃ v, P v ∧ Q v := by
  obtain ⟨octets, v, rfl, hspaced, hP⟩ := h
  obtain ⟨octets', v', hpart, hspaced', hQ⟩ := h'
  have hoctets := Base64Url.decode?_encode octets
  rw [hpart, Base64Url.decode?_encode, Option.some.injEq] at hoctets
  subst hoctets
  exact ⟨v, hP, hspaced.unique hspaced' ▸ hQ⟩

theorem Carries.not_dot_mem {part : List Char} {P : Reading → Prop} (h : Carries part P) :
    '.' ∉ part := by
  obtain ⟨octets, _, rfl, -⟩ := h
  exact Base64Url.not_dot_mem_encode octets

/-- A text that is a token of the signer for the claims at an instant, with its three parts. -/
structure Genuine (s : Signer) (now : Instant) (token : String) (c : Token.Claims)
    (header payload signature : List Char) : Prop where
  /-- The text is the three parts with dots between. -/
  text : token.toList = header ++ '.' :: payload ++ '.' :: signature
  /-- There is no dot in any part. -/
  undotted : '.' ∉ header ∧ '.' ∉ payload ∧ '.' ∉ signature
  /-- The signature is the keyed hash of the text before it. -/
  signed : signature =
    Base64Url.encode (Hmac.sha256 s.secret (Utf8.encode (header ++ '.' :: payload)))
  /-- The header names the one method. -/
  method : Carries header (Json.IsRecord (headerSlots .hs256))
  /-- The payload is exactly the claims. -/
  claims : Carries payload (IsClaims c)
  /-- The claims hold at the instant. -/
  times : 0 ≤ c.notBefore ∧ 0 ≤ c.expiresAt ∧ c.notBefore ≤ now.seconds ∧ now.seconds ≤ c.expiresAt
  issuer : c.issuer = s.issuer
  audience : c.audience = s.audience

variable {s : Signer} {now now' : Instant} {token token' : String} {c c' : Token.Claims}
variable {header payload signature signature' : List Char}

theorem refusing_eq_ok_iff {α : Type} {decoded : Except Defect α} {a : α} :
    refusing decoded = .ok a ↔ decoded = .ok a := by
  cases decoded with
  | error defect => exact ⟨fun h => (nomatch h), fun h => (nomatch h)⟩
  | ok _ => exact ⟨fun h => congrArg _ (Except.ok.inj h), fun h => congrArg _ (Except.ok.inj h)⟩

/-- What is accepted is genuine. -/
theorem genuine_of_verify (h : s.verify now token = .ok c) :
    ∃ header payload signature, s.Genuine now token c header payload signature := by
  unfold verify at h
  split at h
  · cases h
  · rename_i message signature hlast
    split at h
    · cases h
    · rename_i header payload hfirst
      obtain ⟨htext, hsignature⟩ := splitLast?_eq_some_iff.mp hlast
      obtain ⟨rfl, hpayload⟩ := splitLast?_eq_some_iff.mp hfirst
      -- Every step has succeeded, each with what it says of its part.
      obtain ⟨method, hmethod, h⟩ := Except.bind_eq_ok_iff.mp h
      obtain ⟨_, hknown, h⟩ := Except.bind_eq_ok_iff.mp h
      obtain ⟨_, hsigned, h⟩ := Except.bind_eq_ok_iff.mp h
      obtain ⟨claims, hclaims, h⟩ := Except.bind_eq_ok_iff.mp h
      obtain ⟨_, hcheck, h⟩ := Except.bind_eq_ok_iff.mp h
      obtain rfl := Except.ok.inj h
      obtain rfl : method = .hs256 := Decidable.not_not.mp (failIf_eq_ok_iff.mp hknown)
      have hmethod := readPart_readHeader_iff.mp (refusing_eq_ok_iff.mp hmethod)
      have hclaims := readPart_readClaims_iff.mp (refusing_eq_ok_iff.mp hclaims)
      obtain ⟨hexpires, hbefore, hover, hearly, hissuer, haudience⟩ :=
        (checkClaims_iff s now claims).mp hcheck
      refine ⟨header, payload, signature, ?_⟩
      exact
        { text := htext
          undotted := ⟨hmethod.not_dot_mem, hpayload, hsignature⟩
          signed := Decidable.not_not.mp (failIf_eq_ok_iff.mp hsigned)
          method := hmethod
          claims := hclaims
          times := ⟨hbefore, hexpires, hearly, hover⟩
          issuer := hissuer
          audience := haudience }

namespace Genuine

/-- What is genuine is accepted. -/
theorem verify (h : s.Genuine now token c header payload signature) :
    s.verify now token = .ok c := by
  obtain ⟨hbefore, hexpires, hearly, hover⟩ := h.times
  have hcheck : s.checkClaims now c = .ok () :=
    (checkClaims_iff s now c).mpr ⟨hexpires, hbefore, hover, hearly, h.issuer, h.audience⟩
  have hmethod : readPart readHeader header = .ok .hs256 := readPart_readHeader_iff.mpr h.method
  have hclaims : readPart readClaims payload = .ok c := readPart_readClaims_iff.mpr h.claims
  have hsigned : signature = s.signature (header ++ '.' :: payload) := h.signed
  rw [Signer.verify, h.text, splitLast?_append h.undotted.2.2]
  dsimp only
  rw [splitLast?_append h.undotted.2.1]
  dsimp only
  rw [hmethod, hclaims, failIf_of_not (not_not_intro hsigned)]
  simp only [refusing, Except.mapError, hcheck, bind, Except.bind, pure, Except.pure]
  rfl

/-- A genuine token has two dots. -/
theorem dots (h : s.Genuine now token c header payload signature) :
    token.toList.count '.' = 2 := by
  obtain ⟨hheader, hpayload, hsignature⟩ := h.undotted
  rw [h.text]
  simp [List.count_eq_zero.mpr hheader, List.count_eq_zero.mpr hpayload,
    List.count_eq_zero.mpr hsignature]

/-- Every part is the written form of octets. -/
theorem encoded (h : s.Genuine now token c header payload signature) :
    ∀ part ∈ [header, payload, signature], ∃ octets, part = Base64Url.encode octets := by
  obtain ⟨headerOctets, _, hheader, -⟩ := h.method
  obtain ⟨payloadOctets, _, hpayload, -⟩ := h.claims
  intro part hpart
  simp only [List.mem_cons, List.not_mem_nil, or_false] at hpart
  rcases hpart with rfl | rfl | rfl
  · exact ⟨headerOctets, hheader⟩
  · exact ⟨payloadOctets, hpayload⟩
  · exact ⟨_, h.signed⟩

/-- A genuine token has no character but the alphabet and its dots. -/
theorem symbols (h : s.Genuine now token c header payload signature) :
    ∀ char ∈ token.toList, char = '.' ∨ ∃ n, n < 64 ∧ char = Base64Url.symbol n := by
  intro char hchar
  have hof : ∀ part ∈ [header, payload, signature], char ∈ part →
      ∃ n, n < 64 ∧ char = Base64Url.symbol n := by
    intro part hpart hmem
    obtain ⟨octets, rfl⟩ := h.encoded part hpart
    exact Base64Url.exists_symbol_of_mem_encode hmem
  rw [h.text] at hchar
  simp only [List.mem_append, List.mem_cons] at hchar
  rcases hchar with (hheader | hdot | hpayload) | hdot | hsignature
  · exact .inr (hof header (by simp) hheader)
  · exact .inl hdot
  · exact .inr (hof payload (by simp) hpayload)
  · exact .inl hdot
  · exact .inr (hof signature (by simp) hsignature)

end Genuine

/-- The text of three parts. -/
def joined (header payload signature : List Char) : String :=
  String.ofList (header ++ '.' :: payload ++ '.' :: signature)

/-- The parts of a text that is accepted are the ones that it is joined from. -/
theorem genuine_joined (hpayload : '.' ∉ payload) (hsignature : '.' ∉ signature)
    (h : s.verify now (joined header payload signature) = .ok c) :
    s.Genuine now (joined header payload signature) c header payload signature := by
  obtain ⟨header', payload', signature', hgenuine⟩ := genuine_of_verify h
  have htext := hgenuine.text
  have hlast : splitLast? (header' ++ '.' :: payload' ++ '.' :: signature') =
      some (header' ++ '.' :: payload', signature') := splitLast?_append hgenuine.undotted.2.2
  have hfirst : splitLast? (header' ++ '.' :: payload') = some (header', payload') :=
    splitLast?_append hgenuine.undotted.2.1
  rw [joined, String.toList_ofList] at htext
  rw [← htext, splitLast?_append hsignature] at hlast
  obtain ⟨hmessage, rfl⟩ := Prod.mk.inj (Option.some.inj hlast)
  rw [← hmessage, splitLast?_append hpayload] at hfirst
  obtain ⟨rfl, rfl⟩ := Prod.mk.inj (Option.some.inj hfirst)
  exact hgenuine

/-- **Only genuine tokens are accepted**, and all of them, each as the claims in its payload.
So a text with padding, with another alphabet or another number of parts, with bits left over in
a part, with another method in its header, or with a signature that is not the one of its
other parts, is never accepted, and what is signed determines the text. -/
theorem verify_eq_ok_iff_genuine (s : Signer) :
    (∀ now token c, s.verify now token = .ok c ↔
      ∃ header payload signature, s.Genuine now token c header payload signature) ∧
    (∀ now token c, s.verify now token = .ok c →
      token.toList.count '.' = 2 ∧
      (∀ char ∈ token.toList, char = '.' ∨ ∃ n, n < 64 ∧ char = Base64Url.symbol n) ∧
      ∀ header payload signature, '.' ∉ payload → '.' ∉ signature →
        token = joined header payload signature →
          ∀ part ∈ [header, payload, signature],
            ∃ octets, Base64Url.decode? part = some octets ∧ Base64Url.encode octets = part) ∧
    (∀ header payload signature name, '.' ∉ payload → '.' ∉ signature →
      Carries header (NamesMethod name) → name ≠ "HS256" →
        ∀ now c, s.verify now (joined header payload signature) ≠ .ok c) ∧
    (∀ header payload signature, '.' ∉ payload → '.' ∉ signature →
      signature ≠ s.signature (header ++ '.' :: payload) →
        ∀ now c, s.verify now (joined header payload signature) ≠ .ok c) ∧
    (∀ header payload signature signature', '.' ∉ payload → '.' ∉ signature → '.' ∉ signature' →
      ∀ now now' c c', s.verify now (joined header payload signature) = .ok c →
        s.verify now' (joined header payload signature') = .ok c' →
          joined header payload signature = joined header payload signature') := by
  refine ⟨?_, ?_, ?_, ?_, ?_⟩
  · intro now token c
    constructor
    · exact genuine_of_verify
    · rintro ⟨header, payload, signature, hgenuine⟩
      exact hgenuine.verify
  · intro now token c h
    obtain ⟨_, _, _, hgenuine⟩ := genuine_of_verify h
    refine ⟨hgenuine.dots, hgenuine.symbols, ?_⟩
    rintro header payload signature hpayload hsignature rfl part hpart
    obtain ⟨octets, rfl⟩ := (genuine_joined hpayload hsignature h).encoded part hpart
    exact ⟨octets, Base64Url.decode?_encode octets, rfl⟩
  · intro header payload signature name hpayload hsignature hnames hother now c h
    have hgenuine := genuine_joined hpayload hsignature h
    obtain ⟨v, hmethod, hname⟩ := hgenuine.method.both hnames
    exact hother (eq_of_lookup_hs256 (lookup_eq_of_names hmethod hname))
  · intro header payload signature hpayload hsignature hforged now c h
    exact hforged (genuine_joined hpayload hsignature h).signed
  · intro header payload signature signature' hpayload hsignature hsignature' now now' c c' h h'
    rw [(genuine_joined hpayload hsignature h).signed,
      (genuine_joined hpayload hsignature' h').signed]

/-- The token for a minute is genuine at its last second. -/
theorem genuine_at_last_second :
    let s : Signer := ⟨Utf8.encode "thirty-two octets are the secret".toList, "here", "there"⟩
    ∃ header payload signature,
      s.Genuine ⟨60_000_000_000, by decide, by decide⟩ (s.sign minute) minute header payload
        signature := by
  refine ((verify_eq_ok_iff_genuine _).1 _ _ _).mp ?_
  rw [verify_sign_eq_ok_iff, checkClaims_iff]
  decide

end AccessControl.Jwt.Signer
