/-!
# Numerals

Whole numbers written in a base.  Readers of bounded numbers take an optional sign and refuse
what lies outside the bound; leading zeros are allowed.
-/

namespace PackedTables.Numeral

def digitValue? (c : Char) : Option Nat :=
  if '0' ≤ c ∧ c ≤ '9' then some (c.toNat - '0'.toNat)
  else if 'a' ≤ c ∧ c ≤ 'f' then some (c.toNat - 'a'.toNat + 10)
  else if 'A' ≤ c ∧ c ≤ 'F' then some (c.toNat - 'A'.toNat + 10)
  else none

/-- The value of digits that continue a number read so far. -/
def valueFrom? (base : Nat) : Nat → List Char → Option Nat
  | total, [] => some total
  | total, c :: rest => do
      let digit ← digitValue? c
      if digit < base then valueFrom? base (total * base + digit) rest else none

/-- One digit or more, and nothing else. -/
def natural? (base : Nat) (chars : List Char) : Option Nat :=
  if chars.isEmpty then none else valueFrom? base 0 chars

def decimal? (chars : List Char) : Option Nat := natural? 10 chars

/-- An optional plus sign, then a number up to `greatest`. -/
def unsigned? (greatest : Nat) (chars : List Char) : Option Nat :=
  let digits := match chars with
    | '+' :: rest => rest
    | _ => chars
  (decimal? digits).filter (· ≤ greatest)

/-- An optional sign, then a number; the lower bound is one further from zero than the upper. -/
def signed? (greatest : Nat) : List Char → Option Int
  | '-' :: rest => ((decimal? rest).filter (· ≤ greatest + 1)).map fun value => -(value : Int)
  | chars => (unsigned? greatest chars).map Int.ofNat

/-- The greatest number of sixty-four bits. -/
def maxWord : Nat := 0xFFFFFFFFFFFFFFFF

/-- The greatest signed number of sixty-four bits. -/
def maxInt : Nat := 0x7FFFFFFFFFFFFFFF

/-- The number written as a one and so many zeros. -/
def tenTo (places : Nat) : Nat := Nat.pow 10 places

def digits (value : Nat) : List Char := Nat.toDigits 10 value

/-- Decimal digits with zeros in front up to a width. -/
def padded (width value : Nat) : List Char :=
  List.replicate (width - (digits value).length) '0' ++ digits value

end PackedTables.Numeral
