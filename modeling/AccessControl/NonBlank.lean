import AccessControl.Failure
import AccessControl.Text.Blank
import AccessControl.Json.Record

/-! # Texts that are not blank

Labels are checked when they are entered (`NonBlank.ofText`).  What is stored was
checked before, so a stored label is read back without a check.
-/
namespace AccessControl

/-- A label. -/
structure NonBlank where
  /-- The text of the label, with any blanks around it. -/
  text : String
  deriving DecidableEq, Repr

namespace NonBlank

/-- Accepts a text that is not blank, unchanged. -/
def ofText (s : String) : Except Failure NonBlank :=
  if isBlankText s then .error (.validation "value must not be empty or whitespace")
  else .ok ⟨s⟩

instance : Json.Form NonBlank :=
  ⟨fun l => .str l.text, fun v => (Json.readString v).map NonBlank.mk⟩

end NonBlank
end AccessControl
