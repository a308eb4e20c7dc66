import AccessControl.Identity
import AccessControl.NonBlank

/-! # Roles

A role named `Admin`, in any case, is privileged: it holds every permission that is
not prohibited for it.  Every other role holds what is granted to it.
-/
namespace AccessControl

/-- A role. -/
structure Role where
  id : RoleId
  /-- The name, which no other role has. -/
  name : String
  /-- The label shown for the role. -/
  displayName : String
  /-- Whether the role holds every permission unless it is prohibited. -/
  isPrivileged : Bool
  deriving DecidableEq, Repr

namespace Role

/-- The name of privileged roles. -/
def adminName : String := "Admin"

/-- Whether a role of a name is privileged. -/
def isPrivilegedName (name : String) : Bool := sameIgnoringCase (trim name) adminName

/-- Checks the parts of a role.  The name is trimmed and decides the privilege. -/
def new (id : RoleId) (name displayName : String) : Except Failure Role := do
  let name ← NonBlank.ofText name
  let displayName ← NonBlank.ofText displayName
  return ⟨id, trim name.text, displayName.text, isPrivilegedName name.text⟩

/-- There is no role with this number. -/
def missing (id : RoleId) : Failure := .notFound ("role '" ++ id.text ++ "' was not found")

/-- There is a role with this name already. -/
def nameTaken (name : String) : Failure := .conflict ("role '" ++ name ++ "' already exists")

instance : Json.Form Role where
  toJson r := .obj [("role_id", Json.Form.toJson r.id), ("name", .str r.name),
    ("display_name", .str r.displayName), ("is_privileged", .bool r.isPrivileged)]
  read v := do
    let found ← Json.readRecord
      [.required "role_id" (Json.Form.read (α := RoleId)), .required "name" Json.readString,
       .required "display_name" Json.readString, .required "is_privileged" Json.readBool] v
    return ⟨← found.get "role_id" Json.Form.read, ← found.get "name" Json.readString,
      ← found.get "display_name" Json.readString, ← found.get "is_privileged" Json.readBool⟩

end Role

/-- There is no user with this number. -/
def UserId.missing (id : UserId) : Failure := .notFound ("user '" ++ id.text ++ "' was not found")

end AccessControl
