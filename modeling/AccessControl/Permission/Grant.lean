import AccessControl.Data.SortedSet
import AccessControl.Identity

/-! # Grants

A grant row gives a permission to its owner or prohibits it.  A list of changes is
brought to one row for each permission, the last change of a permission deciding
(`normalize`).
-/
namespace AccessControl

/-- A permission given or prohibited. -/
structure Grant where
  permission : String
  /-- Whether it is given; otherwise it is prohibited. -/
  isGranted : Bool
  deriving DecidableEq, Repr

namespace Grant

/-- The row that gives a permission. -/
def granting (permission : String) : Grant := ⟨permission, true⟩

/-- The row that prohibits a permission. -/
def prohibiting (permission : String) : Grant := ⟨permission, false⟩

instance : Json.Form Grant where
  toJson g := .obj [("permission_name", .str g.permission), ("is_granted", .bool g.isGranted)]
  read v := do
    let found ← Json.readRecord
      [.required "permission_name" Json.readString, .required "is_granted" Json.readBool] v
    return ⟨← found.get "permission_name" Json.readString,
      ← found.get "is_granted" Json.readBool⟩

/-- The permission names of rows, as a set. -/
def names (rows : List Grant) : NameSet := .ofList (rows.map (·.permission))

/-- The last row of a permission. -/
def last? (rows : List Grant) (permission : String) : Option Grant :=
  rows.reverse.find? (fun g => g.permission == permission)

/-- One row for each permission that occurs, in order of the names: its last one. -/
def normalize (rows : List Grant) : List Grant := (names rows).toList.filterMap (last? rows)

end Grant

/-- The owner of a grant row. -/
inductive GrantOwner where
  /-- The row belongs to a role. -/
  | role (id : RoleId)
  /-- The row is an override for one user. -/
  | user (id : UserId)
  deriving DecidableEq, Repr

namespace GrantOwner

instance : Json.Form GrantOwner where
  toJson
    | .role id => .obj [("kind", .str "role"), ("id", Json.Form.toJson id)]
    | .user id => .obj [("kind", .str "user"), ("id", Json.Form.toJson id)]
  read v := do
    let kinds := [("role", true), ("user", false)]
    let kind : Json.Reader Bool :=
      match v with
      | .arr _ _ => Json.readText (List.lookup · kinds)
      | _ => Json.readName kinds
    let found ← Json.readRecord [.required "kind" kind, .required "id" Json.readInt64] v
    let id ← found.get "id" Json.readInt64
    return if ← found.get "kind" kind then .role ⟨id⟩ else .user ⟨id⟩

end GrantOwner

/-- A grant row with its owner. -/
structure OwnedGrant where
  owner : GrantOwner
  grant : Grant
  deriving DecidableEq, Repr

instance : Json.Form OwnedGrant where
  toJson r := .obj [("subject", Json.Form.toJson r.owner), ("grant", Json.Form.toJson r.grant)]
  read v := do
    let found ← Json.readRecord [.required "subject" (Json.Form.read (α := GrantOwner)),
      .required "grant" (Json.Form.read (α := Grant))] v
    return ⟨← found.get "subject" Json.Form.read, ← found.get "grant" Json.Form.read⟩

end AccessControl
