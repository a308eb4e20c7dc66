import AccessControl.Jwt.Header
import AccessControl.Proofs.Json.Spelling

/-! # What reads as the header of a token

A header is a record that names the method; its other fields may be absent or `null`, but are of
their form if they are there (`headerSlots`).  A header names one method only: whatever it names, as
an object or as a list, is the method that is read (`lookup_eq_of_names`).
-/
namespace AccessControl.Jwt
open Json
variable {v : Reading} {method : Method} {name : String}

/-- A method is spelled by a name of it. -/
def SpellsMethod (method : Method) (v : Reading) : Prop :=
  ∃ name, Method.byName.lookup name = some method ∧ SpellsName name v

instance : Reads Method.read SpellsMethod := ⟨readName_eq_ok_iff⟩

/-- Anything that reads as a key spells one. -/
def SpellsKey (key : Unit) (v : Reading) : Prop := readPublicKey v = .ok key

instance : Reads readPublicKey SpellsKey := ⟨Iff.rfl⟩

/-- The fields of a header, and what they are to hold. -/
def headerSlots (method : Method) : List Slot :=
  [.nullable "typ" SpellsText, .required "alg" (SpellsMethod method), .nullable "cty" SpellsText,
    .nullable "jku" SpellsText, .nullable "jwk" SpellsKey, .nullable "kid" SpellsText,
    .nullable "x5u" SpellsText, .nullable "x5c" (SpellsList SpellsText),
    .nullable "x5t" SpellsText, .nullable "x5t#S256" SpellsText]

theorem distinct_headerSlots : ((headerSlots method).map Slot.name).Nodup :=
  show ["typ", "alg", "cty", "jku", "jwk", "kid", "x5u", "x5c", "x5t", "x5t#S256"].Nodup by decide

theorem distinct_headerFields : (headerFields.map Field.name).Nodup :=
  show ((headerSlots .hs256).map Slot.name).Nodup from distinct_headerSlots

theorem not_spellsText_null : ∀ s, ¬SpellsText s .null := nofun

theorem not_spellsKey_null : ∀ key, ¬SpellsKey key .null := nofun

theorem not_spellsList_null : ∀ ss, ¬SpellsList SpellsText ss .null := by
  rintro ss ⟨items, heq, -⟩
  cases heq

theorem takes_headerSlots : List.Forall₂ Takes headerFields (headerSlots method) := by
  have htext : ∀ name, Takes (.nullable name readString) (.nullable name SpellsText) :=
    fun _ => takes_nullable not_spellsText_null
  exact .cons (htext _) (.cons takes_required (.cons (htext _) (.cons (htext _)
    (.cons (takes_nullable not_spellsKey_null) (.cons (htext _) (.cons (htext _)
      (.cons (takes_nullable not_spellsList_null) (.cons (htext _) (.cons (htext _) .nil)))))))))

/-- **A header is read exactly from the records that name the method.** -/
theorem readHeader_eq_ok_iff : readHeader v = .ok method ↔ IsRecord (headerSlots method) v := by
  refine record_eq_ok_iff takes_headerSlots distinct_headerSlots fun found hchecked => ?_
  -- All fields but one have been checked and are not looked at again.
  have htext : ∀ name, Field.nullable name readString ∈ headerFields →
      (Slot.nullable name SpellsText).Fills (found.find? name).toList := fun _ hmem =>
    hchecked.fills_nullable distinct_headerFields hmem not_spellsText_null
  have hkey : Field.nullable "jwk" readPublicKey ∈ headerFields := by simp [headerFields]
  have hlist : Field.nullable "x5c" (readList readString) ∈ headerFields := by simp [headerFields]
  have hkey' := hchecked.fills_nullable distinct_headerFields hkey not_spellsKey_null
  have hlist' := hchecked.fills_nullable distinct_headerFields hlist not_spellsList_null
  rw [get_eq_ok_iff]
  simp only [headerSlots, Found.fills_cons, Found.fills_nil]
  constructor
  · intro hmethod
    exact ⟨htext "typ" (by simp [headerFields]), hmethod, htext "cty" (by simp [headerFields]),
      htext "jku" (by simp [headerFields]), hkey', htext "kid" (by simp [headerFields]),
      htext "x5u" (by simp [headerFields]), hlist', htext "x5t" (by simp [headerFields]),
      htext "x5t#S256" (by simp [headerFields]), trivial⟩
  · rintro ⟨-, hmethod, -⟩
    exact hmethod

/-! ## The method that is named -/

/-- What names a method: an object with a member for it, or a list with an item in its place. -/
inductive NamesMethod (name : String) : Reading → Prop where
  | object {members : Members} {v : Reading} (hmem : (some "alg", v) ∈ members)
    (h : SpellsName name v) : NamesMethod name (.obj members true)
  | list {first v : Reading} {items : List Reading} (h : SpellsName name v) :
    NamesMethod name (.arr (first :: v :: items) true)

theorem SpellsMethod.lookup_eq (h : SpellsMethod method v) (hname : SpellsName name v) :
    Method.byName.lookup name = some method := by
  obtain ⟨name', hlookup, hname'⟩ := h
  rwa [hname.unique hname']

/-- **The method of a header is the one that it names.** -/
theorem lookup_eq_of_names (h : IsRecord (headerSlots method) v) (hname : NamesMethod name v) :
    Method.byName.lookup name = some method := by
  cases hname with
  | object hmem hname =>
    cases h with
    | object hobject =>
      have hfills := hobject.fields (.required "alg" (SpellsMethod method)) (by simp [headerSlots])
      exact (hfills.spelled (mem_valuesOf.mpr hmem)).lookup_eq hname
  | list hname =>
    cases h with
    | list hlist =>
      cases hlist with
      | item _ hrest =>
        cases hrest with
        | item hmethod _ => exact SpellsMethod.lookup_eq hmethod hname

/-- The one method of the service has one name. -/
theorem eq_of_lookup_hs256 (h : Method.byName.lookup name = some .hs256) : name = "HS256" := by
  obtain ⟨before, after, hsplit, -⟩ := List.lookup_eq_some_iff.mp h
  have hmem : (name, Method.hs256) ∈ Method.byName := by
    rw [hsplit]
    exact List.mem_append_right _ List.mem_cons_self
  simpa [Method.byName] using hmem

end AccessControl.Jwt
