/-! # Hexadecimal digits

The digits of base sixteen are read in either case.
-/
namespace AccessControl.Hex

/-- The value of a hexadecimal digit, in either case. -/
def value? (c : Char) : Option Nat :=
  if '0' ≤ c ∧ c ≤ '9' then some (c.toNat - 48)
  else if 'a' ≤ c ∧ c ≤ 'f' then some (c.toNat - 87)
  else if 'A' ≤ c ∧ c ≤ 'F' then some (c.toNat - 55)
  else none

end AccessControl.Hex
