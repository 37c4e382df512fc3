import PackedTables.Text.Numeral

/-!
# Decimal numbers

A number as it is written: its digits read as one whole number, and the power of ten by which
they are scaled.
-/

namespace PackedTables

structure Decimal where
  negative : Bool
  coefficient : Nat
  exponent : Int
  deriving DecidableEq, Repr

namespace Decimal

/-- The count of digits of a whole number; zero has none. -/
def digitCount (value : Nat) : Nat :=
  if value = 0 then 0 else (Nat.toDigits 10 value).length

/--
A decimal that is not zero lies between ten to the power one below its magnitude and ten to the
power of its magnitude.
-/
def magnitude (decimal : Decimal) : Int := digitCount decimal.coefficient + decimal.exponent

/-- The size as a fraction of two whole numbers. -/
def fraction (decimal : Decimal) : Nat × Nat :=
  if 0 ≤ decimal.exponent then (decimal.coefficient * Numeral.tenTo decimal.exponent.toNat, 1)
  else (decimal.coefficient, Numeral.tenTo (-decimal.exponent).toNat)

end Decimal

end PackedTables
