import AccessControl.Json.Reading
import AccessControl.Json.Basic

/-! # Reading values of a known form

A reader goes through what a text reads as and either gives a value or the first
problem it meets: the text is no JSON there (`malformed`), or it is JSON but not of
the form wanted (`mismatched`).

A record is an object with known fields, in any order and each once; other fields
are passed over.  A record may also be the list of its fields in their declared
order.
-/
namespace AccessControl.Json

/-- Why a text could not be read as a value of the wanted form. -/
inductive Fault where
  /-- The text is not JSON. -/
  | malformed
  /-- The text is JSON as far as it was read, but not of the wanted form. -/
  | mismatched
  deriving DecidableEq, Repr

/-- How the values of a type are read. -/
abbrev Reader (α : Type) : Type := Reading → Except Fault α

/-- The problem with a value of another kind than the one wanted.  Such a value is
read before it is refused, except that lists and objects are refused at once. -/
def unfit : Reading → Fault
  | .real finite => if finite then .mismatched else .malformed
  | .str none => .malformed
  | .broken => .malformed
  | _ => .mismatched

/-- Reads a truth value. -/
def readBool : Reader Bool
  | .bool b => .ok b
  | v => .error (unfit v)

/-- Reads a whole number of sixty-four bits. -/
def readInt64 : Reader Int64
  | .int n =>
    if Int64.minValue.toInt ≤ n ∧ n ≤ Int64.maxValue.toInt then .ok (Int64.ofInt n)
    else .error (unfit (.int n))
  | v => .error (unfit v)

/-- Reads a text. -/
def readString : Reader String
  | .str (some s) => .ok s
  | v => .error (unfit v)

/-- Reads a text and checks it further. -/
def readText {α : Type} (parse : String → Option α) : Reader α := fun v => do
  match parse (← readString v) with
  | some a => .ok a
  | none => .error .mismatched

/-- Reads a value that may also be `null`. -/
def readOptional {α : Type} (read : Reader α) : Reader (Option α)
  | .null => .ok none
  | v => (read v).map some

/-- Reads the items of a list one after the other. -/
def readItems {α : Type} (read : Reader α) : List Reading → Bool → Except Fault (List α)
  | [], closed => if closed then .ok [] else .error .malformed
  | v :: vs, closed => do
    let a ← read v
    let rest ← readItems read vs closed
    return a :: rest

/-- Reads a list. -/
def readList {α : Type} (read : Reader α) : Reader (List α)
  | .arr items closed => readItems read items closed
  | v => .error (unfit v)

/-- Reads one of several names, written as a text or as an object that maps the one
name to `null`. -/
def readName {α : Type} (names : List (String × α)) : Reader α
  | .str (some s) =>
    match names.lookup s with
    | some a => .ok a
    | none => .error .mismatched
  | .obj [(some s, .null)] true =>
    match names.lookup s with
    | some a => .ok a
    | none => .error .mismatched
  | .arr _ _ => .error .malformed
  | v => .error (unfit v)

/-- Reads one of several names as `readName` does; the object may also map the name to an
empty object. -/
def readLooseName {α : Type} (names : List (String × α)) : Reader α
  | .obj [(name, .obj [] true)] true => readName names (.str name)
  | v => readName names v

/-! ## Records -/

/-- A field of a record. -/
structure Field where
  name : String
  /-- Whether an object must have the field. -/
  neededInObject : Bool
  /-- Whether a list must go as far as the field. -/
  neededInList : Bool
  /-- Whether a value of the field can be read. -/
  check : Reading → Except Fault Unit

/-- Keeps of a reader only whether it succeeds. -/
def checking {α : Type} (read : Reader α) : Reading → Except Fault Unit :=
  fun v => (read v).map fun _ => ()

/-- A field that is always there. -/
def Field.required {α : Type} (name : String) (read : Reader α) : Field :=
  ⟨name, true, true, checking read⟩

/-- A field that may be missing or `null`, in an object and at the end of a list. -/
def Field.optional {α : Type} (name : String) (read : Reader α) : Field :=
  ⟨name, false, false, checking (readOptional read)⟩

/-- A field that may be `null`, and missing in an object but not in a list. -/
def Field.nullable {α : Type} (name : String) (read : Reader α) : Field :=
  ⟨name, false, true, checking (readOptional read)⟩

/-- The values found for the fields of a record. -/
abbrev Found : Type := List (String × Reading)

/-- The value found for a field. -/
def Found.find? (found : Found) (name : String) : Option Reading := List.lookup name found

/-- The value of a field that must be there. -/
def Found.get {α : Type} (found : Found) (name : String) (read : Reader α) : Except Fault α :=
  match found.find? name with
  | some v => read v
  | none => .error .mismatched

/-- The value of a field that may be missing or `null`. -/
def Found.get? {α : Type} (found : Found) (name : String) (read : Reader α) :
    Except Fault (Option α) :=
  match found.find? name with
  | some v => readOptional read v
  | none => .ok none

/-- Collects the known fields among the members of an object. -/
def collect (fields : List Field) : Found → List (Option String × Reading) → Except Fault Found
  | found, [] => .ok found
  | _, (none, _) :: _ => .error .malformed
  | found, (some key, v) :: rest =>
    match fields.find? (·.name == key) with
    | some field =>
      if (found.find? key).isSome then .error .mismatched
      else do
        field.check v
        collect fields (found ++ [(key, v)]) rest
    | none => if v.isWhole then collect fields found rest else .error .malformed

/-- Gives the items of a list to the fields in their order. -/
def deal : List Field → List Reading → Bool → Except Fault Found
  | [], [], closed => if closed then .ok [] else .error .malformed
  | [], _ :: _, _ => .error .malformed
  | field :: fields, [], closed =>
    if !closed then .error .malformed
    else if field.neededInList then .error .mismatched
    else deal fields [] closed
  | field :: fields, v :: vs, closed => do
    field.check v
    let rest ← deal fields vs closed
    return (field.name, v) :: rest

/-- Reads the values of the fields of a record. -/
def readRecord (fields : List Field) : Reader Found
  | .obj members closed => do
    let found ← collect fields [] members
    if !closed then .error .malformed
    else if fields.any (fun f => f.neededInObject && (found.find? f.name).isNone) then
      .error .mismatched
    else .ok found
  | .arr items closed => deal fields items closed
  | v => .error (unfit v)

/-! ## Whole texts -/

/-- Reads a source that holds one value and nothing else. -/
def ofSource {α : Type} (read : Reader α) (s : Reading.Source) : Except Fault α := do
  let (v, alone) := Reading.ofSource s
  let a ← read v
  if alone then .ok a else .error .malformed

/-- A type whose values have a JSON form. -/
class Form (α : Type) where
  /-- What is written for a value. -/
  toJson : α → Json
  /-- How a value is read. -/
  read : Reader α

/-- The JSON text of a value. -/
def write {α : Type} [Form α] (a : α) : String := (Form.toJson a).text

/-- The value that a JSON text stands for. -/
def decode {α : Type} [Form α] (s : String) : Except Fault α :=
  ofSource Form.read (Reading.source s)

/-- The value that a JSON text stands for, if it stands for one. -/
def decode? {α : Type} [Form α] (s : String) : Option α := (decode s).toOption

instance : Form String := ⟨.str, readString⟩

instance : Form Int64 := ⟨fun n => .int n.toInt, readInt64⟩

end AccessControl.Json
