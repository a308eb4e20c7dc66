import AccessControl.Failure
import AccessControl.Json.Record
import AccessControl.Text.Blank
import AccessControl.Text.Decimal
import AccessControl.Uuid

/-! # Identities

Users and roles are numbered by words of sixty-four bits.  A user's security stamp
and a token's validity key are UUIDs: replacing the stamp ends every session of the
user, removing the key ends the one token.
-/
namespace AccessControl

/-- Reads a number of sixty-four bits from a text, blanks around it aside.  The
failure quotes the text as it was given. -/
def readNumber (what text : String) : Except Failure Int64 :=
  match Decimal.read .signed64 (trimChars text.toList) with
  | .ok n => .ok (Int64.ofInt n)
  | .error fault =>
    .error (.validation ("invalid " ++ what ++ " '" ++ text ++ "': " ++ fault.message))

/-- The number of a user. -/
structure UserId where
  number : Int64
  deriving DecidableEq, Repr

namespace UserId

/-- The decimal form of the number. -/
def text (id : UserId) : String := Decimal.text id.number.toInt

/-- Reads a user's number. -/
def ofText (s : String) : Except Failure UserId := (readNumber "user id" s).map UserId.mk

instance : Json.Form UserId :=
  ⟨fun id => .int id.number.toInt, fun v => (Json.readInt64 v).map UserId.mk⟩

end UserId

/-- The number of a role. -/
structure RoleId where
  number : Int64
  deriving DecidableEq, Repr

namespace RoleId

/-- The decimal form of the number. -/
def text (id : RoleId) : String := Decimal.text id.number.toInt

/-- Reads a role's number. -/
def ofText (s : String) : Except Failure RoleId := (readNumber "role id" s).map RoleId.mk

instance : Json.Form RoleId :=
  ⟨fun id => .int id.number.toInt, fun v => (Json.readInt64 v).map RoleId.mk⟩

instance : LT RoleId := ⟨fun a b => a.number < b.number⟩
instance : LE RoleId := ⟨fun a b => a.number ≤ b.number⟩
instance : DecidableLT RoleId := fun a b => inferInstanceAs (Decidable (a.number < b.number))

instance : Std.IsLinearOrder RoleId where
  le_refl a := Std.le_refl a.number
  le_trans _ _ _ h h' := Std.le_trans (α := Int64) h h'
  le_antisymm a b h h' := by
    cases a
    cases b
    exact congrArg RoleId.mk (Std.le_antisymm (α := Int64) h h')
  le_total a b := Std.le_total (a := a.number) (b := b.number)

instance : Std.LawfulOrderLT RoleId where
  lt_iff a b := Std.LawfulOrderLT.lt_iff a.number b.number

end RoleId

/-- The value that ties every token of a user to the time it was issued. -/
structure SecurityStamp where
  uuid : Uuid
  deriving DecidableEq

namespace SecurityStamp

/-- The printed form. -/
def text (stamp : SecurityStamp) : String := stamp.uuid.text

/-- Reads a stamp, blanks around it aside. -/
def ofText (s : String) : Except Failure SecurityStamp :=
  match Uuid.ofChars? (trimChars s.toList) with
  | some uuid => .ok ⟨uuid⟩
  | none => .error (.validation "invalid security stamp")

instance : Json.Form SecurityStamp :=
  ⟨fun stamp => .str stamp.text,
    fun v => (Json.readText Uuid.ofText? v).map SecurityStamp.mk⟩

end SecurityStamp

/-- The value under which the record of one token is kept. -/
structure TokenKey where
  uuid : Uuid
  deriving DecidableEq

namespace TokenKey

/-- The printed form. -/
def text (key : TokenKey) : String := key.uuid.text

instance : Json.Form TokenKey :=
  ⟨fun key => .str key.text, fun v => (Json.readText Uuid.ofText? v).map TokenKey.mk⟩

end TokenKey

/-- Why a user's stamp is replaced.  Changes of roles are no reason, since permissions
are not part of a token. -/
inductive RotationReason where
  /-- The user has been created. -/
  | userCreated
  /-- The password was changed or reset. -/
  | passwordChanged
  /-- The address for signing in was changed. -/
  | emailChanged
  /-- The user asked to end every session. -/
  | signOutEverywhere
  /-- An administrator locked the account. -/
  | administrativeLock
  deriving DecidableEq, Repr

namespace RotationReason

/-- The name of a reason. -/
def name : RotationReason → String
  | .userCreated => "user_created"
  | .passwordChanged => "password_changed"
  | .emailChanged => "email_changed"
  | .signOutEverywhere => "sign_out_everywhere"
  | .administrativeLock => "administrative_lock"

/-- Every reason. -/
def all : List RotationReason :=
  [.userCreated, .passwordChanged, .emailChanged, .signOutEverywhere, .administrativeLock]

instance : Json.Form RotationReason :=
  ⟨fun r => .str r.name, Json.readName (all.map fun r => (r.name, r))⟩

end RotationReason
end AccessControl
