import PackedTables.Settings.Path

/-!
# Settings from the environment

A variable whose name starts with `WORLD__`, in any case, is a setting.  Two underscores in the rest
of the name lead into a member.  The text is taken for a truth value, a whole number or a number
with a fraction when it reads as one.
-/

namespace PackedTables.Environment

/-- What the name of every setting starts with, in lower case. -/
def start : List Char := "world__".toList

/-- Points in the place of pairs of underscores. -/
def pointed : List Char → List Char
  | '_' :: '_' :: rest => '.' :: pointed rest
  | c :: rest => c :: pointed rest
  | [] => []

/-- The path that the name of a variable stands for. -/
def pathText? (name : String) : Option String :=
  let chars := (lowerCase name).toList
  if start.isPrefixOf chars then some (String.ofList (pointed (chars.drop start.length))) else none

/-! ## Numbers with fractions -/

def splitSign : List Char → Bool × List Char
  | '-' :: rest => (true, rest)
  | '+' :: rest => (false, rest)
  | chars => (false, chars)

def special? (negative : Bool) (chars : List Char) : Option Binary64 :=
  let word := lowerCase (String.ofList chars)
  if word = "inf" ∨ word = "infinity" then some (.infinite negative)
  else if word = "nan" then some .nan
  else none

def isExponentMark (c : Char) : Bool := c == 'e' || c == 'E'

def exponent? : List Char → Option Int
  | [] => some 0
  | _ :: rest => do
      let (negative, digits) := splitSign rest
      let size ← Numeral.decimal? digits
      return if negative then -(size : Int) else size

/-- Digits, with a point before, among or after them, and a power of ten. -/
def decimal? (negative : Bool) (chars : List Char) : Option Decimal := do
  let mantissa := chars.takeWhile fun c => !isExponentMark c
  let whole := mantissa.takeWhile (· != '.')
  let places := (mantissa.dropWhile (· != '.')).drop 1
  let coefficient ← Numeral.decimal? (whole ++ places)
  let exponent ← exponent? (chars.dropWhile fun c => !isExponentMark c)
  return ⟨negative, coefficient, exponent - places.length⟩

def float? (text : String) : Option Binary64 :=
  let (negative, chars) := splitSign text.toList
  match special? negative chars with
  | some value => some value
  | none => (decimal? negative chars).map Binary64.ofDecimal

/-! ## Variables -/

def bool? (text : String) : Option Bool :=
  let word := lowerCase text
  if word = "true" then some true else if word = "false" then some false else none

def valueOf (text : String) : Tree :=
  match bool? text with
  | some value => .bool value
  | none =>
      match Numeral.signed? Numeral.maxInt text.toList with
      | some value => .int value
      | none =>
          match float? text with
          | some value => .float value
          | none => .text text

/-- The settings in an environment, a later one instead of an earlier one of the same name. -/
def members (environment : List (String × String)) : Tree.Members :=
  environment.foldl (fun members entry =>
    match pathText? entry.1 with
    | some path => Tree.put path (valueOf entry.2) members
    | none => members) []

end PackedTables.Environment
