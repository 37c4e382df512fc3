import PackedTables.Number.Binary64

/-!
# JSON documents

A document keeps what the reader of a value may ask for.  Numbers are whole when they are written
without fraction and exponent, fit sixty-four bits and are not a negative zero.  Of any other number
the digits that fit sixty-four bits are kept, with the power of ten that they stand at.  A text
whose escapes leave a surrogate unpaired is legal where nobody reads it, so it is kept as broken.
Members stay in written order, repeated names included.
-/

namespace PackedTables

/-- A member name; broken escapes leave none. -/
abbrev MemberName := Option String

inductive Json
  | null
  | bool (value : Bool)
  | int (value : Int)
  | real (value : Decimal)
  | text (value : String)
  | brokenText
  | array (items : List Json)
  | object (members : List (MemberName × Json))

namespace Json

/-- An object whose names are given as text. -/
def record (members : List (String × Json)) : Json :=
  .object (members.map fun member => (some member.1, member.2))

def texts (values : List String) : Json := .array (values.map .text)

def orNull {α : Type} (write : α → Json) : Option α → Json
  | none => .null
  | some value => write value

mutual

/--
Every text in it is whole, every number is finite, and at most `room` arrays and objects are nested
in one another.
-/
def isSound (room : Nat) : Json → Bool
  | .brokenText => false
  | .real value => Binary64.isFiniteInSteps value
  | .array items => 0 < room && areSound (room - 1) items
  | .object members => 0 < room && areSoundMembers (room - 1) members
  | _ => true

def areSound (room : Nat) : List Json → Bool
  | [] => true
  | item :: rest => isSound room item && areSound room rest

def areSoundMembers (room : Nat) : List (MemberName × Json) → Bool
  | [] => true
  | (name, value) :: rest => name.isSome && isSound room value && areSoundMembers room rest

end

end Json

end PackedTables
