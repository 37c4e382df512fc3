import PackedTables.Number.Decimal
import PackedTables.Text.Numeral

/-!
# Binary floating-point numbers

A finite double is a whole number of units of `2 ^ -1074`.  Reading a decimal rounds to the
nearest double, a tie to the even significand.  Writing uses the fewest digits that read back,
and of those the nearest to the value, always in positional form.
-/

namespace PackedTables

inductive Binary64
  | nan
  | infinite (negative : Bool)
  | finite (negative : Bool) (units : Nat)
  deriving DecidableEq, Repr

namespace Binary64

def twoTo (exponent : Nat) : Nat := Nat.pow 2 exponent

/-- One is this many units. -/
def one : Nat := twoTo 1074

/-- The first count of units that is too large. -/
def overflow : Nat := twoTo 2098

/-- The quotient, rounded to the nearest whole number, a tie to the even one. -/
def divideToEven (numerator denominator : Nat) : Nat :=
  let quotient := numerator / denominator
  let twice := 2 * (numerator % denominator)
  if twice < denominator then quotient
  else if twice > denominator then quotient + 1
  else quotient + quotient % 2

/-- The distance between neighbouring doubles around a count of units. -/
def stepAt (units : Nat) : Nat := twoTo (Nat.log2 units - 52)

def roundFraction (numerator denominator : Nat) : Nat :=
  let scaled := numerator * one
  let step := stepAt (scaled / denominator)
  divideToEven scaled (denominator * step) * step

/-- The double nearest to a decimal.  Far out of range the answer needs no arithmetic. -/
def ofDecimal (decimal : Decimal) : Binary64 :=
  if decimal.coefficient = 0 then .finite decimal.negative 0
  else if decimal.magnitude < -400 then .finite decimal.negative 0
  else if decimal.magnitude > 400 then .infinite decimal.negative
  else
    let fraction := decimal.fraction
    let units := roundFraction fraction.1 fraction.2
    if units < overflow then .finite decimal.negative units else .infinite decimal.negative

/-! ## Products -/

/-- The size of a product of two sizes, in units. -/
def product (first second : Nat) : Nat := roundFraction (first * second) (one * one)

/-- The greatest power of ten that is finite. -/
def maxPower : Nat := 308

/--
Whether a decimal is finite when its coefficient and its power of ten are rounded each by itself
before they are multiplied, and once more after that.  Dividing by a power of ten stays finite.
-/
def isFiniteInSteps (decimal : Decimal) : Bool :=
  let power := decimal.exponent.toNat
  decimal.coefficient == 0 || decide (decimal.exponent < 0) ||
    (decide (power ≤ maxPower) &&
      decide (product (roundFraction decimal.coefficient 1)
        (roundFraction (Numeral.tenTo power) 1) < overflow))

/-! ## Whole numbers near a double -/

/-- The nearest whole number, a half going up. -/
def roundUnits (units : Nat) : Nat := (2 * units + one) / (2 * one)

/--
The nearest natural number up to `greatest`, a half going away from zero: what lies below is zero,
what lies above is `greatest`, and what is no number is zero.
-/
def clamp (greatest : Nat) : Binary64 → Nat
  | nan => 0
  | infinite negative => if negative then 0 else greatest
  | finite negative units => if negative then 0 else min greatest (roundUnits units)

def isZero : Binary64 → Bool
  | finite _ units => units == 0
  | _ => false

/-! ## Shortest text -/

/-- Ten to the power of a whole number, as a fraction. -/
def powerOfTen (exponent : Int) : Nat × Nat :=
  if 0 ≤ exponent then (Numeral.tenTo exponent.toNat, 1) else (1, Numeral.tenTo (-exponent).toNat)

/-- The exponent of the leading decimal digit of a count of units that is not zero. -/
def leadingExponent (units : Nat) : Int :=
  let whole := units / one
  if whole ≠ 0 then (Decimal.digitCount whole : Int) - 1
  else -(Decimal.digitCount ((one - 1) / units) : Int)

/--
Whether a multiple of a power of ten reads back as these units.  The ends of the interval that
rounds to them belong to it when the significand is even; below a power of two the interval is
half as wide.
-/
def readsBack (units coefficient : Nat) (exponent : Int) : Bool :=
  let step := stepAt units
  let below := if units = twoTo (Nat.log2 units) ∧ 1 < step then step else 2 * step
  let power := powerOfTen exponent
  let candidate := 4 * (coefficient * power.1 * one)
  let least := (4 * units - below) * power.2
  let greatest := (4 * units + 2 * step) * power.2
  if units / step % 2 = 0 then least ≤ candidate ∧ candidate ≤ greatest
  else least < candidate ∧ candidate < greatest

/-- The nearer of the two neighbours on the grid of a power of ten that reads back; a tie goes up. -/
def onGrid? (units : Nat) (exponent : Int) : Option Nat :=
  let power := powerOfTen exponent
  let numerator := units * power.2
  let denominator := power.1 * one
  let lower := numerator / denominator
  let upper := lower + 1
  let nearer := if 2 * (numerator % denominator) < denominator then lower else upper
  let farther := if 2 * (numerator % denominator) < denominator then upper else lower
  if readsBack units nearer exponent then some nearer
  else if readsBack units farther exponent then some farther
  else none

/-- Try grids from coarse to fine; `finer` grids are left after this one. -/
def shortestFrom (units : Nat) : Nat → Int → Nat × Int
  | 0, exponent => ((onGrid? units exponent).getD 0, exponent)
  | finer + 1, exponent =>
      match onGrid? units exponent with
      | some coefficient => (coefficient, exponent)
      | none => shortestFrom units finer (exponent - 1)

def shortest (units : Nat) : Nat × Int :=
  if units = 0 then (0, 0) else shortestFrom units 17 (leadingExponent units)

/-- Digits with the point set by a power of ten, and no more zeros than needed. -/
def positional (coefficient : Nat) (exponent : Int) : List Char :=
  if 0 ≤ exponent then Numeral.digits (coefficient * Numeral.tenTo exponent.toNat)
  else
    let places := (-exponent).toNat
    let whole := Numeral.digits (coefficient / Numeral.tenTo places)
    let rest := (Numeral.padded places (coefficient % Numeral.tenTo places)).reverse.dropWhile (· == '0')
    if rest.isEmpty then whole else whole ++ '.' :: rest.reverse

def text : Binary64 → String
  | nan => "NaN"
  | infinite negative => if negative then "-inf" else "inf"
  | finite negative units =>
      let decimal := shortest units
      let digits := positional decimal.1 decimal.2
      String.ofList (if negative then '-' :: digits else digits)

end Binary64

end PackedTables
