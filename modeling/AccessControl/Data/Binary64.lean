/-! # Floating-point numbers

A floating-point number keeps fifty-three binary digits, and there is a largest one.  Only
this is said here: what is kept of a whole number (`round`), and whether the product of two
numbers is too large to be one (`isProductFinite`).
-/
namespace AccessControl.Binary64

/-- What is kept of a whole number: the nearest number with at most fifty-three binary
digits before its zeros, and of two equally near ones the one whose last digit is even. -/
def round (n : Nat) : Nat :=
  let unit := Nat.pow 2 (n.log2 - 52)
  let kept := n / unit
  let rest := n % unit
  if 2 * rest < unit ∨ (2 * rest = unit ∧ kept % 2 = 0) then kept * unit
  else (kept + 1) * unit

/-- Half a unit above the largest floating-point number: from here on a number rounds to
none. -/
def overflow : Nat := Nat.pow 2 1024 - Nat.pow 2 970

/-- Whether the product of two whole numbers is finite, each being rounded first. -/
def isProductFinite (m n : Nat) : Bool := decide (round m * round n < overflow)

/-- Small numbers are kept as they are. -/
theorem round_of_log2_le {n : Nat} (h : n.log2 ≤ 52) : round n = n := by
  simp [round, Nat.sub_eq_zero_of_le h, Nat.mod_one]

end AccessControl.Binary64
