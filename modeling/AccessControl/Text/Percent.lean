import AccessControl.Text.Hex
import AccessControl.Text.Utf8

/-! # Percent-encoded text

`%` with two hexadecimal digits after it stands for one octet, every other
character for its own octets.  A `%` without two digits after it stands for
itself.
-/
namespace AccessControl.Percent

/-- The octets of a percent-encoded text. -/
def octets : List Char → List UInt8
  | [] => []
  | '%' :: a :: b :: rest =>
    match Hex.value? a, Hex.value? b with
    | some a, some b => UInt8.ofNat (a * 16 + b) :: octets rest
    | _, _ => Utf8.encode ['%'] ++ octets (a :: b :: rest)
  | c :: rest => Utf8.encode [c] ++ octets rest

/-- The text that a percent-encoded text stands for, if its octets are a text. -/
def decode? (s : String) : Option String :=
  (Utf8.decode? (octets s.toList)).map String.ofList

end AccessControl.Percent
