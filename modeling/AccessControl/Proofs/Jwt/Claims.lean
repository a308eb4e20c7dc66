import AccessControl.Proofs.Json.Spelling
import AccessControl.Token.Claims

/-! # Claims read back as they were written

The claims that may be absent are left out when they are; the members that are written are
therefore some of the fields, in their order.
-/
namespace AccessControl.Token.Claims
open Json
variable {name : String} {o : Option String}

/-- The fields of claims, and what they are to hold. -/
def slots (c : Claims) : List Slot :=
  [.required "sub" (SpellsText c.subject), .required "iss" (SpellsText c.issuer),
    .required "aud" (SpellsText c.audience), .required "iat" (SpellsNumber c.issuedAt),
    .required "nbf" (SpellsNumber c.notBefore), .required "exp" (SpellsNumber c.expiresAt),
    .required "jti" (SpellsText c.tokenId), .optional "security_stamp" SpellsText c.stamp?,
    .optional "token_validity_key" SpellsText c.key?, .optional "token_type" SpellsText c.kind?,
    .optional "refresh_token_validity_key" SpellsText c.refreshKey?]

theorem distinct_slots (c : Claims) : (c.slots.map Slot.name).Nodup :=
  show ["sub", "iss", "aud", "iat", "nbf", "exp", "jti", "security_stamp", "token_validity_key",
    "token_type", "refresh_token_validity_key"].Nodup by decide

theorem takes_slots (c : Claims) : List.Forall₂ Takes fields c.slots := by
  have hnull : ∀ s, ¬SpellsText s .null := nofun
  refine .cons takes_required (.cons takes_required (.cons takes_required (.cons takes_required
    (.cons takes_required (.cons takes_required (.cons takes_required ?_))))))
  exact .cons (takes_optional hnull) (.cons (takes_optional hnull) (.cons (takes_optional hnull)
    (.cons (takes_optional hnull) .nil)))

instance : Spelled Claims where
  Spells c := IsRecord c.slots
  reads := by
    have hnull : ∀ s, ¬SpellsText s .null := nofun
    constructor
    intro v c
    refine record_eq_ok_iff c.takes_slots c.distinct_slots fun found _ => ?_
    simp only [Except.bind_eq_ok_iff, get_eq_ok_iff, get?_eq_ok_iff hnull, Except.pure_eq_ok_iff,
      slots, Found.fills_cons, Found.fills_nil, Slot.name_required, Slot.name_optional, and_true]
    cases c
    simp only [Claims.mk.injEq, existsAndEq, and_true]

/-! ## The written form -/

theorem writes_optionalMember {slots : List Slot} {rest : List (String × Json)}
    (h : Writes slots rest) :
    Writes (.optional name SpellsText o :: slots) (optionalMember name o ++ rest) := by
  cases o with
  | none => exact .absent rfl h
  | some s => exact .member (.inr ⟨s, rfl, rfl⟩) h

/-- The members are some of the fields, in their order. -/
theorem writes_members (c : Claims) : Writes c.slots c.members := by
  have hlast : Writes [.optional "refresh_token_validity_key" SpellsText c.refreshKey?]
      (optionalMember "refresh_token_validity_key" c.refreshKey?) := by
    rw [← List.append_nil (optionalMember _ _)]
    exact writes_optionalMember .nil
  -- The seven claims that are always there come first, then four that may be left out.
  simp only [members, List.append_assoc, List.cons_append, List.nil_append]
  refine .member rfl (.member rfl (.member rfl (.member rfl (.member rfl (.member rfl
    (.member rfl ?_))))))
  exact writes_optionalMember (writes_optionalMember (writes_optionalMember hlast))

theorem small_optionalMember : ∀ m ∈ optionalMember name o, m.2.Small := by
  cases o with
  | none => exact List.forall_mem_nil _
  | some s => exact List.forall_mem_singleton.mpr trivial

theorem small_members (c : Claims) : ∀ m ∈ c.members, m.2.Small := by
  simp only [members, List.forall_mem_append, List.forall_mem_cons]
  refine ⟨⟨⟨⟨⟨trivial, trivial, trivial, small_int64 _, small_int64 _, small_int64 _, trivial,
    List.forall_mem_nil _⟩, ?_⟩, ?_⟩, ?_⟩, ?_⟩
  · exact small_optionalMember
  · exact small_optionalMember
  · exact small_optionalMember
  · exact small_optionalMember

/-- **Claims read back as they were written.** -/
instance : Faithful Claims where
  small c := by
    show (Json.obj c.members).Small
    rw [Json.Small, membersSmall_iff]
    exact c.small_members
  read_reading c := read_of_spells (c.writes_members.isRecord c.distinct_slots)

end AccessControl.Token.Claims
