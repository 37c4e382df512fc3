import PackedTables.Settings.Tree
import PackedTables.Text.Numeral

/-!
# Bare values in TOML text

What a run of characters without quotes can be, moments apart: a truth value or a number.  Single
underscores may stand between digits.  A whole number must fit sixty-four bits.  A number with a
fraction or an exponent must not grow beyond all bounds upward.
-/

namespace PackedTables.Toml.Scalar

/-- The digits of a group, the underscores between them dropped. -/
def ungroup? (isDigit : Char → Bool) : List Char → Option (List Char)
  | [] => none
  | [c] => if isDigit c then some [c] else none
  | c :: '_' :: rest => if isDigit c then (ungroup? isDigit rest).map (c :: ·) else none
  | c :: rest => if isDigit c then (ungroup? isDigit rest).map (c :: ·) else none

/-- Decimal digits, no zero in front of others. -/
def whole? (chars : List Char) : Option (List Char) :=
  match ungroup? Char.isDigit chars with
  | some ('0' :: _ :: _) => none
  | digits => digits

def splitSign : List Char → Bool × List Char
  | '-' :: rest => (true, rest)
  | '+' :: rest => (false, rest)
  | chars => (false, chars)

def ofBase? (base : Nat) (chars : List Char) : Option Int := do
  let digits ← ungroup? (fun c => (Numeral.digitValue? c).any (· < base)) chars
  let value ← (Numeral.natural? base digits).filter (· ≤ Numeral.maxInt)
  return value

def decimalInt? (chars : List Char) : Option Int := do
  let (negative, rest) := splitSign chars
  let size ← Numeral.decimal? (← whole? rest)
  if negative then if size ≤ Numeral.maxInt + 1 then return -(size : Int) else none
  else if size ≤ Numeral.maxInt then return size
  else none

def int? : List Char → Option Int
  | '0' :: 'x' :: rest => ofBase? 16 rest
  | '0' :: 'o' :: rest => ofBase? 8 rest
  | '0' :: 'b' :: rest => ofBase? 2 rest
  | chars => decimalInt? chars

def isExponentMark (c : Char) : Bool := c == 'e' || c == 'E'

/-- The power of ten after the mark; nothing, none. -/
def exponent? : List Char → Option Int
  | [] => some 0
  | _ :: rest => do
      let (negative, rest) := splitSign rest
      let size ← Numeral.decimal? (← ungroup? Char.isDigit rest)
      return if negative then -(size : Int) else size

/-- The digits after the point; nothing, none. -/
def places? : List Char → Option (List Char)
  | [] => some []
  | _ :: rest => ungroup? Char.isDigit rest

/-- A number with a fraction, an exponent or both. -/
def decimal? (chars : List Char) : Option Decimal := do
  let (negative, rest) := splitSign chars
  if !rest.any fun c => c == '.' || isExponentMark c then none
  let mantissa := rest.takeWhile fun c => !isExponentMark c
  let whole ← whole? (mantissa.takeWhile (· != '.'))
  let places ← places? (mantissa.dropWhile (· != '.'))
  let exponent ← exponent? (rest.dropWhile fun c => !isExponentMark c)
  let coefficient ← Numeral.decimal? (whole ++ places)
  return ⟨negative, coefficient, exponent - places.length⟩

def special? (chars : List Char) : Option Binary64 :=
  let (negative, rest) := splitSign chars
  if rest = ['i', 'n', 'f'] then some (.infinite negative)
  else if rest = ['n', 'a', 'n'] then some .nan
  else none

def float? (chars : List Char) : Option Binary64 :=
  match special? chars with
  | some value => some value
  | none => ((decimal? chars).map Binary64.ofDecimal).filter (· != .infinite false)

def bool? (chars : List Char) : Option Bool :=
  if chars = ['t', 'r', 'u', 'e'] then some true
  else if chars = ['f', 'a', 'l', 's', 'e'] then some false
  else none

def ofChars? (chars : List Char) : Option Tree :=
  match bool? chars with
  | some value => some (.bool value)
  | none =>
      match int? chars with
      | some value => some (.int value)
      | none => (float? chars).map .float

end PackedTables.Toml.Scalar
