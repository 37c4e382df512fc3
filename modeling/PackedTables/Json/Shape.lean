import PackedTables.Json.Basic

/-!
# Reading values out of JSON

A structure is an object of its fields, in any order and with any others beside them, or an array
of its fields in their order.  Either form yields one slot a field; how an empty slot is taken is
the field's own affair.  A repeated field, a broken name and an array that is too long are refused.
-/

namespace PackedTables.Json

/-- What stands in the place of a field; an array may end before it. -/
inductive Slot
  | given (value : Json)
  | absent
  | beyond

def slotNamed? (members : List (MemberName × Json)) (name : String) : Option Slot :=
  match members.filter fun member => member.1 == some name with
  | [] => some .absent
  | [member] => some (.given member.2)
  | _ => none

def slots? (names : List String) : Json → Option (List Slot)
  | .object members =>
      if members.all fun member => member.1.isSome then names.mapM (slotNamed? members) else none
  | .array items =>
      if items.length ≤ names.length then
        some (items.map .given ++ List.replicate (names.length - items.length) .beyond)
      else none
  | _ => none

namespace Slot

variable {α : Type}

def required (read : Json → Option α) : Slot → Option α
  | .given value => read value
  | _ => none

def orElse (read : Json → Option α) (standard : α) : Slot → Option α
  | .given value => read value
  | _ => some standard

def readNullable (read : Json → Option α) : Json → Option (Option α)
  | .null => some none
  | value => (read value).map some

/-- A field that may be null, and may be left out of an object but not of an array. -/
def nullable (read : Json → Option α) : Slot → Option (Option α)
  | .given value => readNullable read value
  | .absent => some none
  | .beyond => none

end Slot

def text? : Json → Option String
  | .text value => some value
  | _ => none

def bool? : Json → Option Bool
  | .bool value => some value
  | _ => none

/-- A whole number from zero up to `greatest`. -/
def natural? (greatest : Nat) : Json → Option Nat
  | .int value => if 0 ≤ value ∧ value ≤ greatest then some value.toNat else none
  | _ => none

def list? {α : Type} (read : Json → Option α) : Json → Option (List α)
  | .array items => items.mapM read
  | _ => none

def pair? {α β : Type} (first : Json → Option α) (second : Json → Option β) : Json → Option (α × β)
  | .array [one, two] => do return (← first one, ← second two)
  | _ => none

end PackedTables.Json
