import AccessControl.NonBlank

/-! # Permissions

A permission is a name without blanks, with a label and a group under which it is
shown.  Names are compared exactly.
-/
namespace AccessControl

/-- A permission with what is shown for it. -/
structure PermissionDefinition where
  /-- The name that grants refer to. -/
  name : NonBlank
  /-- The label shown for the permission. -/
  displayName : NonBlank
  /-- The label of the group in which it is shown. -/
  group : NonBlank
  deriving DecidableEq, Repr

namespace PermissionDefinition

/-- Checks the parts of a definition, the name first. -/
def new (name displayName group : String) : Except Failure PermissionDefinition := do
  failIf (name.toList.any isBlank)
    (.validation ("permission name '" ++ name ++ "' must not contain whitespace"))
  return ⟨← NonBlank.ofText name, ← NonBlank.ofText displayName, ← NonBlank.ofText group⟩

instance : Json.Form PermissionDefinition where
  toJson d := .obj [("name", Json.Form.toJson d.name),
    ("display_name", Json.Form.toJson d.displayName), ("group", Json.Form.toJson d.group)]
  read v := do
    let label : Json.Reader NonBlank := Json.Form.read
    let found ← Json.readRecord
      [.required "name" label, .required "display_name" label, .required "group" label] v
    return ⟨← found.get "name" label, ← found.get "display_name" label,
      ← found.get "group" label⟩

end PermissionDefinition
end AccessControl
