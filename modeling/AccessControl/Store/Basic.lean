import AccessControl.Data.Table
import AccessControl.Program.Backend

/-! # The store in memory

The store holds the roles with their rows, the users with their stamps, roles and rows,
and the records of issued tokens.  It is a value: reading looks it up, and a write gives
a failure or the store after the write.  Roles and users are numbered from one upwards,
and no number is given twice.
-/
namespace AccessControl

/-- A user as it is stored. -/
structure StoredUser where
  /-- The name, which no other user has. -/
  name : String
  stamp : SecurityStamp
  roles : List RoleId
  grants : List Grant
  deriving DecidableEq

/-- Everything that is stored. -/
structure Store where
  roles : Table RoleId Role
  roleGrants : Table RoleId (List Grant)
  users : Table UserId StoredUser
  /-- The token records: from when on the token is no longer accepted. -/
  tokens : Table (UserId × TokenKey) Instant
  /-- The number that was given to a role last. -/
  lastRole : Int64
  /-- The number that was given to a user last. -/
  lastUser : Int64
  deriving DecidableEq

namespace Store

/-- The store that holds nothing. -/
def empty : Store := ⟨∅, ∅, ∅, ∅, 0, 0⟩

instance : Inhabited Store := ⟨empty⟩

/-- The number after one that was given, unless all are given. -/
def next (last : Int64) : Except Failure Int64 :=
  if last < Int64.maxValue then .ok (last + 1) else .error (.internal "no number is left")

/-! ## Reading -/

/-- The role with a number. -/
def findRole (s : Store) (role : RoleId) : Option Role := s.roles.find? role

/-- The rows of a role; none if there is no such role. -/
def grantsOfRole (s : Store) (role : RoleId) : List Grant := (s.roleGrants.find? role).getD []

/-- The rows of a user alone; none if there is no such user. -/
def grantsOfUser (s : Store) (user : UserId) : List Grant :=
  match s.users.find? user with
  | some stored => stored.grants
  | none => []

/-- The roles of a user; none if there is no such user. -/
def rolesOfUser (s : Store) (user : UserId) : List RoleId :=
  match s.users.find? user with
  | some stored => stored.roles
  | none => []

/-- The stamp of a user. -/
def stampOf (s : Store) (user : UserId) : Option SecurityStamp :=
  (s.users.find? user).map (·.stamp)

/-- Whether there is a record of a token that holds beyond an instant. -/
def isTokenLive (s : Store) (user : UserId) (key : TokenKey) (now : Instant) : Bool :=
  match s.tokens.find? (user, key) with
  | some expiresAt => decide (now < expiresAt)
  | none => false

/-- The number of token records of a user, expired ones included. -/
def tokenCount (s : Store) (user : UserId) : Nat :=
  (s.tokens.keys.filter (fun owner => owner.1 = user)).length

/-! ## Users and their stamps -/

/-- Stores a user with a stamp.  The name is trimmed. -/
def createUser (s : Store) (name : String) (stamp : SecurityStamp) :
    Except Failure (UserId × Store) := do
  let name := trim name
  failIf name.isEmpty (.validation "user name must not be empty")
  failIf (s.users.values.any (fun user => user.name == name))
    (.conflict ("user '" ++ name ++ "' already exists"))
  let number ← next s.lastUser
  let user := UserId.mk number
  return (user, { s with
    users := s.users.insert user ⟨name, stamp, [], []⟩
    lastUser := number })

/-- Changes a stored user, who must exist. -/
def modifyUser (s : Store) (user : UserId) (change : StoredUser → StoredUser) :
    Except Failure Store :=
  if s.users.contains user then .ok { s with users := s.users.modify user change }
  else .error user.missing

/-- Replaces the stamp of a user. -/
def updateStamp (s : Store) (user : UserId) (stamp : SecurityStamp) : Except Failure Store :=
  s.modifyUser user ({ · with stamp })

/-- Replaces the rows of a user. -/
def replaceUserGrants (s : Store) (user : UserId) (grants : List Grant) :
    Except Failure Store :=
  s.modifyUser user ({ · with grants })

/-- Replaces the roles of a user; every one of them must exist, and then the user. -/
def replaceUserRoles (s : Store) (user : UserId) (roles : List RoleId) :
    Except Failure Store :=
  match roles.find? (fun role => !s.roles.contains role) with
  | some role => .error (Role.missing role)
  | none => s.modifyUser user ({ · with roles })

/-! ## Roles and their rows -/

/-- Whether a role other than the one given has a name. -/
def nameTakenBeside (s : Store) (role : RoleId) (name : String) : Bool :=
  s.roles.values.any (fun stored => stored.id ≠ role && stored.name == name)

/-- Stores a role with its rows. -/
def createRole (s : Store) (role : NewRole) : Except Failure (Role × Store) := do
  failIf (s.roles.values.any (fun stored => stored.name == role.name))
    (Role.nameTaken role.name)
  let number ← next s.lastRole
  let record : Role := ⟨⟨number⟩, role.name, role.displayName, role.isPrivileged⟩
  return (record, { s with
    roles := s.roles.insert record.id record
    roleGrants := s.roleGrants.insert record.id role.grants
    lastRole := number })

/-- Changes a role, and its rows if new ones are given.  A name that another role has is
reported before a role that does not exist. -/
def updateRole (s : Store) (role : RoleId) (change : RoleChange) : Except Failure Store := do
  failIf (s.nameTakenBeside role change.name) (Role.nameTaken change.name)
  failIf (!s.roles.contains role) (Role.missing role)
  return { s with
    roles := s.roles.modify role (fun stored => { stored with
      name := change.name
      displayName := change.displayName
      isPrivileged := change.isPrivileged })
    roleGrants :=
      match change.grants? with
      | some grants => s.roleGrants.insert role grants
      | none => s.roleGrants }

/-- Replaces the rows of a role. -/
def replaceRoleGrants (s : Store) (role : RoleId) (grants : List Grant) :
    Except Failure Store :=
  if s.roles.contains role then .ok { s with roleGrants := s.roleGrants.insert role grants }
  else .error (Role.missing role)

/-- The users who have a role, in the order of their numbers. -/
def usersWith (s : Store) (role : RoleId) : List UserId :=
  (s.users.entries.filter (fun e => e.2.roles.contains role)).map Prod.fst

/-- Removes a role with its rows and takes it from the users who have it; their numbers
are given with the store. -/
def deleteRole (s : Store) (role : RoleId) : Except Failure (List UserId × Store) :=
  if s.roles.contains role then
    .ok (s.usersWith role, { s with
      roles := s.roles.erase role
      roleGrants := s.roleGrants.erase role
      users := s.users.mapValues (fun _ user =>
        { user with roles := user.roles.filter (fun assigned => assigned ≠ role) }) })
  else .error (Role.missing role)

/-! ## Token records -/

/-- Stores the record of a token, whose user must exist. -/
def createToken (s : Store) (record : Token.Record) : Except Failure Store :=
  if s.users.contains record.userId then
    .ok { s with tokens := s.tokens.insert (record.userId, record.key) record.expiresAt }
  else .error record.userId.missing

/-- Removes the record of a token, and tells whether there was one. -/
def deleteToken (s : Store) (user : UserId) (key : TokenKey) : Bool × Store :=
  (s.tokens.contains (user, key), { s with tokens := s.tokens.erase (user, key) })

/-- Removes all token records of a user, and tells how many there were. -/
def deleteTokens (s : Store) (user : UserId) : Nat × Store :=
  (s.tokenCount user, { s with tokens := s.tokens.filterKeys (fun owner => owner.1 ≠ user) })

end Store
end AccessControl
