import AccessControl.Cached.Key
import AccessControl.Data.SortedSet

/-! # Cached items

Every cached item can be made again from what is stored, and names its owner.
-/
namespace AccessControl.Cached

/-- The roles of a user. -/
structure UserRoles where
  userId : UserId
  roleIds : List RoleId
  deriving DecidableEq

/-- What is given to and prohibited for a user alone. -/
structure UserPermissions where
  userId : UserId
  granted : NameSet
  prohibited : NameSet
  deriving DecidableEq

/-- The permissions of a role. -/
structure RolePermissions where
  roleId : RoleId
  granted : NameSet
  deriving DecidableEq

/-- A user's stamp as it was last found in the store. -/
structure Stamp where
  userId : UserId
  stamp : SecurityStamp
  deriving DecidableEq

/-- A token whose record was found to be live. -/
structure LiveToken where
  userId : UserId
  key : TokenKey
  deriving DecidableEq

/-- The written form of a set of names. -/
def namesJson (names : NameSet) : Json := .arr (names.toList.map Json.str)

/-- Reads a set of names, in any order and with repeats. -/
def readNames : Json.Reader NameSet :=
  fun v => (Json.readList Json.readString v).map SortedSet.ofList

instance : Json.Form UserRoles where
  toJson i := .obj [("user_id", Json.Form.toJson i.userId),
    ("role_ids", .arr (i.roleIds.map Json.Form.toJson))]
  read v := do
    let user : Json.Reader UserId := Json.Form.read
    let roles : Json.Reader (List RoleId) := Json.readList Json.Form.read
    let found ← Json.readRecord [.required "user_id" user, .required "role_ids" roles] v
    return ⟨← found.get "user_id" user, ← found.get "role_ids" roles⟩

instance : Json.Form UserPermissions where
  toJson i := .obj [("user_id", Json.Form.toJson i.userId),
    ("granted_user_permissions", namesJson i.granted),
    ("prohibited_user_permissions", namesJson i.prohibited)]
  read v := do
    let user : Json.Reader UserId := Json.Form.read
    let found ← Json.readRecord [.required "user_id" user,
      .required "granted_user_permissions" readNames,
      .required "prohibited_user_permissions" readNames] v
    return ⟨← found.get "user_id" user, ← found.get "granted_user_permissions" readNames,
      ← found.get "prohibited_user_permissions" readNames⟩

instance : Json.Form RolePermissions where
  toJson i := .obj [("role_id", Json.Form.toJson i.roleId),
    ("granted_permissions", namesJson i.granted)]
  read v := do
    let role : Json.Reader RoleId := Json.Form.read
    let found ← Json.readRecord
      [.required "role_id" role, .required "granted_permissions" readNames] v
    return ⟨← found.get "role_id" role, ← found.get "granted_permissions" readNames⟩

instance : Json.Form Stamp where
  toJson i := .obj [("user_id", Json.Form.toJson i.userId),
    ("security_stamp", Json.Form.toJson i.stamp)]
  read v := do
    let user : Json.Reader UserId := Json.Form.read
    let stamp : Json.Reader SecurityStamp := Json.Form.read
    let found ← Json.readRecord [.required "user_id" user, .required "security_stamp" stamp] v
    return ⟨← found.get "user_id" user, ← found.get "security_stamp" stamp⟩

instance : Json.Form LiveToken where
  toJson i := .obj [("user_id", Json.Form.toJson i.userId),
    ("token_key", Json.Form.toJson i.key)]
  read v := do
    let user : Json.Reader UserId := Json.Form.read
    let key : Json.Reader TokenKey := Json.Form.read
    let found ← Json.readRecord [.required "user_id" user, .required "token_key" key] v
    return ⟨← found.get "user_id" user, ← found.get "token_key" key⟩

end AccessControl.Cached
