import PackedTables.Time.Date
import PackedTables.Text.Numeral

/-!
# Dates and times in TOML text

A date, a time, or both with a zone or none.  They are checked and kept as text in one form: a `T`
between date and time, fractions of at most nine digits without zeros at the end, and a zone in
capital or with a sign.
-/

namespace PackedTables.Toml.Moment

/-- Exactly `width` digits: themselves, their value and the rest. -/
def digits? (width : Nat) (chars : List Char) : Option (List Char × Nat × List Char) :=
  let digits := chars.take width
  if digits.length = width ∧ digits.all Char.isDigit then
    (Numeral.decimal? digits).map fun value => (digits, value, chars.drop width)
  else none

def isDate (year month day : Nat) : Bool :=
  1 ≤ month && month ≤ 12 && 1 ≤ day && day ≤ Date.monthLength year month

def date? (chars : List Char) : Option (List Char × List Char) := do
  let (yearDigits, year, rest) ← digits? 4 chars
  let '-' :: rest := rest | none
  let (monthDigits, month, rest) ← digits? 2 rest
  let '-' :: rest := rest | none
  let (dayDigits, day, rest) ← digits? 2 rest
  if isDate year month day then
    return (yearDigits ++ '-' :: monthDigits ++ '-' :: dayDigits, rest)
  else none

def hourMinute? (chars : List Char) : Option (List Char × List Char) := do
  let (hourDigits, hour, rest) ← digits? 2 chars
  let ':' :: rest := rest | none
  let (minuteDigits, minute, rest) ← digits? 2 rest
  if hour < 24 ∧ minute < 60 then return (hourDigits ++ ':' :: minuteDigits, rest) else none

def trimZeros (digits : List Char) : List Char := (digits.reverse.dropWhile (· == '0')).reverse

/-- A point and digits, or nothing. -/
def fraction? : List Char → Option (List Char × List Char)
  | '.' :: rest =>
      let digits := rest.takeWhile Char.isDigit
      if digits.isEmpty then none
      else
        let kept := trimZeros (digits.take 9)
        some (if kept.isEmpty then [] else '.' :: kept, rest.dropWhile Char.isDigit)
  | chars => some ([], chars)

def time? (chars : List Char) : Option (List Char × List Char) := do
  let (start, rest) ← hourMinute? chars
  let ':' :: rest := rest | none
  let (secondDigits, second, rest) ← digits? 2 rest
  let (fraction, rest) ← fraction? rest
  if second ≤ 60 then return (start ++ ':' :: secondDigits ++ fraction, rest) else none

/-- The rest of a moment: a zone, or nothing. -/
def zone? : List Char → Option (List Char)
  | [] => some []
  | ['z'] => some ['Z']
  | ['Z'] => some ['Z']
  | sign :: rest => do
      let (offset, []) ← hourMinute? rest | none
      if sign = '+' then return '+' :: offset
      else if sign = '-' then return (if offset.all (['0', ':'].contains ·) then '+' else '-') :: offset
      else none

def afterDate? : List Char → Option (List Char)
  | [] => some []
  | mark :: rest => do
      let (time, rest) ← time? rest
      let zone ← zone? rest
      if mark = 'T' ∨ mark = 't' ∨ mark = ' ' then return 'T' :: time ++ zone else none

/-- A moment in its one form. -/
def ofChars? (chars : List Char) : Option (List Char) :=
  match date? chars with
  | some (date, rest) => (afterDate? rest).map (date ++ ·)
  | none =>
      match time? chars with
      | some (time, []) => some time
      | _ => none

end PackedTables.Toml.Moment
