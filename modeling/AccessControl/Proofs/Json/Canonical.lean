import AccessControl.Proofs.Json.Spelling
import AccessControl.Proofs.Jwt.Claims

/-! # Written forms are canonical

Many texts stand for one value: there are blanks and escapes that need not be, fields come in any
order and with others between them, or as a list, sets repeat names, identifiers are in any of
their forms, claims are `null` instead of missing.  A text decodes to a value exactly if it is JSON
by the grammar (`Reading.Spaced`) for what spells the value (`Spelled.Spells`), and one of these
texts is what is written for the value.  So a text that is decoded and written again becomes that
one, and it stays as it is if this is done once more (`Canonical`).
-/
namespace AccessControl.Json
variable {α : Type} [Form α] {t t' : String} {a a' : α}

/-- A text is JSON for something of a kind. -/
def ReadsAs (t : String) (P : Reading → Prop) : Prop :=
  ∃ v, Reading.Spaced v (Reading.source t) ∧ P v

/-- What is written for the value that a text stands for. -/
def rewritten (α : Type) [Form α] (t : String) : Except Fault String :=
  (decode t : Except Fault α).map write

/-- **The written form of a type is canonical.** -/
structure Canonical (α : Type) [Form α] [Spelled α] : Prop where
  /-- What is written for a value decodes to it. -/
  decode_write : ∀ a : α, decode (write a) = .ok a
  /-- A text decodes to a value if it spells it, and only then. -/
  decode_iff : ∀ (t : String) (a : α), decode t = .ok a ↔ ReadsAs t (Spells a)
  /-- However a value is spelled, it is written in one way. -/
  rewritten_eq : ∀ (t : String) (a : α), ReadsAs t (Spells a) → rewritten α t = .ok (write a)
  /-- What has been rewritten is rewritten to itself. -/
  idempotent : ∀ t t' : String, rewritten α t = .ok t' → rewritten α t' = .ok t'
  /-- Two texts are rewritten alike if they stand for the same value, and only then. -/
  alike : ∀ (t t' : String) (a a' : α), decode t = .ok a → decode t' = .ok a' →
    (rewritten α t = rewritten α t' ↔ a = a')

theorem decode_eq_ok_iff [Spelled α] : decode t = .ok a ↔ ReadsAs t (Spells a) := by
  rw [decode, ofSource_eq_ok_iff, ReadsAs]
  exact exists_congr fun v => and_congr_right fun _ => Reads.iff

theorem rewritten_of_decode (h : decode t = .ok a) : rewritten α t = .ok (write a) := by
  rw [rewritten, h]
  rfl

theorem decode_of_rewritten (h : rewritten α t = .ok t') :
    ∃ a : α, decode t = .ok a ∧ t' = write a := by
  rw [rewritten] at h
  cases hdecode : (decode t : Except Fault α) with
  | error fault =>
    rw [hdecode] at h
    cases h
  | ok a =>
    rw [hdecode] at h
    exact ⟨a, rfl, (Except.ok.inj h).symm⟩

/-- **A type that reads back what is written for it is canonical.** -/
theorem canonical (α : Type) [Form α] [Faithful α] [Spelled α] : Canonical α where
  decode_write := decode_write
  decode_iff _ _ := decode_eq_ok_iff
  rewritten_eq _ _ h := rewritten_of_decode (decode_eq_ok_iff.mpr h)
  idempotent t t' h := by
    obtain ⟨a, -, rfl⟩ := decode_of_rewritten h
    exact rewritten_of_decode (decode_write a)
  alike t t' a a' h h' := by
    rw [rewritten_of_decode h, rewritten_of_decode h', Except.ok.injEq]
    exact ⟨write_injective, fun heq => heq ▸ rfl⟩

-- With a blank, a prefix, capitals and an escape, and then without them.
example : rewritten SecurityStamp
      " \"urn:uuid:0190163D-8694-739B-AEA5-966C26F8AD9\\u0031\"" =
    .ok "\"0190163d-8694-739b-aea5-966c26f8ad91\"" := by rfl

/-- **All written forms of the domain are canonical**: those of cached items, of claims, of roles
and permissions with their grants, and of identities, labels and names of kinds. -/
theorem domain_forms_are_canonical :
    Canonical Cached.UserRoles ∧ Canonical Cached.UserPermissions ∧
      Canonical Cached.RolePermissions ∧ Canonical Cached.Stamp ∧ Canonical Cached.LiveToken ∧
      Canonical Token.Claims ∧ Canonical Role ∧ Canonical Grant ∧ Canonical GrantOwner ∧
      Canonical OwnedGrant ∧ Canonical PermissionDefinition ∧ Canonical Token.Kind ∧
      Canonical RotationReason ∧ Canonical UserId ∧ Canonical RoleId ∧ Canonical TokenKey ∧
      Canonical SecurityStamp ∧ Canonical NonBlank :=
  ⟨canonical _, canonical _, canonical _, canonical _, canonical _, canonical _, canonical _,
    canonical _, canonical _, canonical _, canonical _, canonical _, canonical _, canonical _,
    canonical _, canonical _, canonical _, canonical _⟩

end AccessControl.Json
