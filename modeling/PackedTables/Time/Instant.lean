import PackedTables.Text.Blank
import PackedTables.Text.Numeral
import PackedTables.Time.Date

/-!
# Instants

A date and a time of day in universal time, down to the nanosecond.  A minute may have a sixty-first
second.  The written form is a date, a `T`, a time and a zone.  It is written in universal time with
as few groups of three fraction digits as are exact, and read with any offset below a day.
-/

namespace PackedTables

def nanosecondsOfSecond : Nat := 1000000000

structure Clock where
  hour : Nat
  minute : Nat
  second : Nat
  nanosecond : Nat
  real : hour < 24 ∧ minute < 60 ∧ second ≤ 60 ∧ nanosecond < nanosecondsOfSecond
  deriving DecidableEq

structure Instant where
  date : Date
  clock : Clock
  deriving DecidableEq

namespace Clock

def make? (hour minute second nanosecond : Nat) : Option Clock :=
  if real : hour < 24 ∧ minute < 60 ∧ second ≤ 60 ∧ nanosecond < nanosecondsOfSecond then
    some ⟨hour, minute, second, nanosecond, real⟩
  else none

def minuteOfDay (clock : Clock) : Nat := clock.hour * 60 + clock.minute

/-- The same second of another minute of the day. -/
def atMinute? (clock : Clock) (minutes : Nat) : Option Clock :=
  make? (minutes / 60) (minutes % 60) clock.second clock.nanosecond

end Clock

namespace Instant

def minutesOfDay : Nat := 1440

/-- The instant that reads as this one at an offset, in minutes less than a day. -/
def fromOffset? (clocked : Instant) (offset : Int) : Option Instant := do
  let minutes := (clocked.clock.minuteOfDay : Int) - offset
  if minutes < 0 then
    return ⟨← clocked.date.previous?, ← clocked.clock.atMinute? (minutes + minutesOfDay).toNat⟩
  else if minutes < minutesOfDay then
    return ⟨clocked.date, ← clocked.clock.atMinute? minutes.toNat⟩
  else
    return ⟨← clocked.date.next?, ← clocked.clock.atMinute? (minutes - minutesOfDay).toNat⟩

/-! ## Reading -/

def expect (wanted : Char) : List Char → Option (List Char)
  | c :: rest => if c = wanted then some rest else none
  | [] => none

/-- At most `width` digits, and one at least. -/
def readDigits (width : Nat) (chars : List Char) : Option (Nat × List Char) :=
  let digits := (chars.take width).takeWhile Char.isDigit
  (Numeral.decimal? digits).map fun value => (value, chars.drop digits.length)

def readNumber (width : Nat) (chars : List Char) : Option (Nat × List Char) :=
  readDigits width (skipBlanks chars)

/-- Four digits at most, or any count of them after a sign. -/
def readYear (chars : List Char) : Option (Int × List Char) :=
  match skipBlanks chars with
  | '-' :: rest => (readDigits rest.length rest).map fun read => (-(read.1 : Int), read.2)
  | '+' :: rest => (readDigits rest.length rest).map fun read => ((read.1 : Int), read.2)
  | rest => (readDigits 4 rest).map fun read => ((read.1 : Int), read.2)

def readDate (chars : List Char) : Option (Date × List Char) := do
  let (year, rest) ← readYear chars
  let rest ← expect '-' (skipBlanks rest)
  let (month, rest) ← readNumber 2 rest
  let rest ← expect '-' (skipBlanks rest)
  let (day, rest) ← readNumber 2 rest
  return (← Date.make? year month day, rest)

/-- Nanoseconds from a point and digits, of which nine count; no point, none. -/
def readFraction : List Char → Option (Nat × List Char)
  | '.' :: rest => do
      let (value, left) ← readDigits 9 rest
      return (value * Numeral.tenTo (9 - (rest.length - left.length)), left.dropWhile Char.isDigit)
  | chars => some (0, chars)

def readClock (chars : List Char) : Option (Clock × List Char) := do
  let (hour, rest) ← readNumber 2 chars
  let rest ← expect ':' (skipBlanks rest)
  let (minute, rest) ← readNumber 2 rest
  let rest ← expect ':' (skipBlanks rest)
  let (second, rest) ← readNumber 2 rest
  let (nanosecond, rest) ← readFraction rest
  return (← Clock.make? hour minute second nanosecond, rest)

def readSeparator : List Char → Option (List Char)
  | c :: rest => if c = 't' ∨ c = 'T' ∨ c = ' ' then some rest else none
  | [] => none

/-- Two digits, both of them there. -/
def readPair : List Char → Option (Nat × List Char)
  | tens :: ones :: rest => (Numeral.decimal? [tens, ones]).map fun value => (value, rest)
  | _ => none

def minusSign : Char := Char.ofNat 0x2212

def readSign : List Char → Option (Bool × List Char)
  | c :: rest =>
      if c = '+' then some (false, rest)
      else if c = '-' ∨ c = minusSign then some (true, rest)
      else none
  | [] => none

/-- Minutes east from a sign, hours and minutes. -/
def readOffset (chars : List Char) : Option (Int × List Char) := do
  let (negative, rest) ← readSign chars
  let (hours, rest) ← readPair rest
  let (minutes, rest) ← readPair (rest.dropWhile fun c => c == ':' || isBlank c)
  let offset := hours * 60 + minutes
  if minutes < 60 ∧ offset < minutesOfDay then
    return (if negative then -(offset : Int) else offset, rest)
  else none

def isUniversal (u t c : Char) : Bool := u.toUpper == 'U' && t.toUpper == 'T' && c.toUpper == 'C'

def readZone : List Char → Option (Int × List Char)
  | 'z' :: rest => some (0, rest)
  | 'Z' :: rest => some (0, rest)
  | u :: t :: c :: rest => if isUniversal u t c then some (0, rest) else readOffset (u :: t :: c :: rest)
  | _ => none

def read? (text : String) : Option Instant := do
  let (date, rest) ← readDate text.toList
  let (clock, rest) ← readClock (← readSeparator rest)
  let (offset, rest) ← readZone (skipBlanks rest)
  if (skipBlanks rest).isEmpty then fromOffset? ⟨date, clock⟩ offset else none

/-! ## Writing -/

/-- Four digits; outside of what they can tell, with a sign. -/
def yearChars (year : Int) : List Char :=
  if 0 ≤ year ∧ year ≤ 9999 then Numeral.padded 4 year.toNat
  else (if year < 0 then '-' else '+') :: Numeral.padded 4 year.natAbs

def fractionChars (nanosecond : Nat) : List Char :=
  if nanosecond = 0 then []
  else if nanosecond % 1000000 = 0 then '.' :: Numeral.padded 3 (nanosecond / 1000000)
  else if nanosecond % 1000 = 0 then '.' :: Numeral.padded 6 (nanosecond / 1000)
  else '.' :: Numeral.padded 9 nanosecond

def dateChars (date : Date) : List Char :=
  yearChars date.year ++ '-' :: Numeral.padded 2 date.month ++ '-' :: Numeral.padded 2 date.day

def clockChars (clock : Clock) : List Char :=
  Numeral.padded 2 clock.hour ++ ':' :: Numeral.padded 2 clock.minute ++
    ':' :: Numeral.padded 2 clock.second ++ fractionChars clock.nanosecond

def text (instant : Instant) : String :=
  String.ofList (dateChars instant.date ++ 'T' :: clockChars instant.clock ++ ['Z'])

end Instant

end PackedTables
