import AccessControl.Cached.Item
import AccessControl.Program.Backend

/-! # Reading and writing cached items

The cache never makes a service fail.  A reading that fails is a miss, as is a value
that cannot be decoded, which is removed; a writing or a removal that fails is given up.
-/
namespace AccessControl.Cached

/-- Removes a cached item. -/
def remove (key : CacheKey) : Program Backend Unit := do
  let _ ← Backend.request (.cacheDelete key.text)
  return ()

/-- The item cached under a key. -/
def read (α : Type) [Json.Form α] (key : CacheKey) : Program Backend (Option α) := do
  match ← Backend.request (.cacheGet key.text) with
  | .ok (some value) =>
    match Json.decode? (α := α) value with
    | some item => return some item
    | none =>
      remove key
      return none
  | _ => return none

/-- Caches an item under a key for some seconds. -/
def write {α : Type} [Json.Form α] (seconds : UInt32) (key : CacheKey) (item : α) :
    Program Backend Unit := do
  let _ ← Backend.request (.cacheSet key.text (Json.write item) seconds)
  return ()

/-- An item that is cached under a key made from its owner. -/
class Item (α : Type) extends Json.Form α where
  key : α → CacheKey

instance : Item UserRoles := ⟨fun i => .userRoles i.userId⟩
instance : Item UserPermissions := ⟨fun i => .userPermissions i.userId⟩
instance : Item RolePermissions := ⟨fun i => .rolePermissions i.roleId⟩
instance : Item Stamp := ⟨fun i => .securityStamp i.userId⟩
instance : Item LiveToken := ⟨fun i => .tokenValidity i.userId i.key⟩

/-- Caches an item for some seconds. -/
def store {α : Type} [Item α] (seconds : UInt32) (item : α) : Program Backend Unit :=
  write seconds (Item.key item) item

/-- The cached roles of a user. -/
def userRoles (user : UserId) : Program Backend (Option UserRoles) :=
  read UserRoles (.userRoles user)

/-- What is cached as given to and prohibited for a user alone. -/
def userPermissions (user : UserId) : Program Backend (Option UserPermissions) :=
  read UserPermissions (.userPermissions user)

/-- The cached permissions of a role. -/
def rolePermissions (role : RoleId) : Program Backend (Option RolePermissions) :=
  read RolePermissions (.rolePermissions role)

/-- The cached stamp of a user. -/
def stamp (user : UserId) : Program Backend (Option Stamp) := read Stamp (.securityStamp user)

/-- Whether a token is cached as live. -/
def isLive (user : UserId) (key : TokenKey) : Program Backend Bool := do
  return (← read LiveToken (.tokenValidity user key)).isSome

end AccessControl.Cached
