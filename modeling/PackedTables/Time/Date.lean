/-!
# Calendar dates

Days of the Gregorian calendar, extended over all years for which there are dates.  Every date is a
day that exists.
-/

namespace PackedTables

namespace Date

def firstYear : Int := -262143

def lastYear : Int := 262142

def isLeapYear (year : Int) : Bool := year % 4 == 0 && (year % 100 != 0 || year % 400 == 0)

def monthLength (year : Int) (month : Nat) : Nat :=
  if month = 2 then if isLeapYear year then 29 else 28
  else if month = 4 ∨ month = 6 ∨ month = 9 ∨ month = 11 then 30
  else 31

def Exists (year : Int) (month day : Nat) : Prop :=
  (firstYear ≤ year ∧ year ≤ lastYear) ∧ (1 ≤ month ∧ month ≤ 12) ∧
    (1 ≤ day ∧ day ≤ monthLength year month)

instance (year : Int) (month day : Nat) : Decidable (Exists year month day) := by
  unfold Exists
  infer_instance

end Date

structure Date where
  year : Int
  month : Nat
  day : Nat
  real : Date.Exists year month day
  deriving DecidableEq

namespace Date

def make? (year : Int) (month day : Nat) : Option Date :=
  if real : Exists year month day then some ⟨year, month, day, real⟩ else none

/-- The day after, when there is one. -/
def next? (date : Date) : Option Date :=
  match make? date.year date.month (date.day + 1) with
  | some date => some date
  | none =>
      match make? date.year (date.month + 1) 1 with
      | some date => some date
      | none => make? (date.year + 1) 1 1

/-- The day before, when there is one. -/
def previous? (date : Date) : Option Date :=
  if 1 < date.day then make? date.year date.month (date.day - 1)
  else if 1 < date.month then
    make? date.year (date.month - 1) (monthLength date.year (date.month - 1))
  else make? (date.year - 1) 12 31

theorem make?_eq_some (date : Date) : make? date.year date.month date.day = some date :=
  dif_pos date.real

end Date

end PackedTables
