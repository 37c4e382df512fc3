import PackedTables.Text.Numeral

/-!
# Kinds of values

The shapes in which a field can be stored, the bytes that each of them takes, and the number by
which a layout word names it.
-/

namespace PackedTables

inductive Width
  | fixed (bytes : Nat)
  | varying
  deriving DecidableEq

def Width.fixed? : Width → Option Nat
  | fixed bytes => some bytes
  | varying => none

def Width.isFixed (width : Width) : Bool := width.fixed?.isSome

inductive Kind
  | bool
  | uint (bits : Nat)
  | int (bits : Nat)
  | fixedBytes (length : Nat)
  | address
  | enumeration (name : String) (variants : Nat)
  | bytes
  | string
  | array (element : Kind) (length : Option Nat)
  deriving DecidableEq

namespace Kind

def addressWidth : Nat := 20

def width : Kind → Width
  | bool => .fixed 1
  | uint bits => .fixed (bits / 8)
  | int bits => .fixed (bits / 8)
  | fixedBytes length => .fixed length
  | address => .fixed addressWidth
  | enumeration _ _ => .fixed 1
  | bytes => .varying
  | string => .varying
  | array _ _ => .varying

/--
The number of a kind, kept to its low byte.  It is none where a step leaves its range: below zero,
above sixty-four bits for a length, or above one byte for an array.
-/
def typeId? : Kind → Option UInt8
  | uint bits => if bits / 8 = 0 then none else some (UInt8.ofNat (bits / 8 - 1))
  | int bits => some (UInt8.ofNat (32 + bits / 8 - 1))
  | fixedBytes length =>
      if 64 + length ≤ Numeral.maxWord then some (UInt8.ofNat (64 + length - 1)) else none
  | bool => some 96
  | address => some 97
  | enumeration _ _ => some 0
  | array element _ =>
      match typeId? element with
      | some id => if 98 + id.toNat < 256 then some (98 + id) else none
      | none => none
  | bytes => some 196
  | string => some 197

end Kind

/-- A kind under a name, with what follows from the kind worked out. -/
structure FieldType where
  name : String
  kind : Kind
  width : Width
  standard : List UInt8
  typeId : UInt8
  deriving DecidableEq

namespace FieldType

/-- The stored form of an omitted value: zero bytes, or none for a variable width. -/
def standardOf : Width → List UInt8
  | .fixed bytes => List.replicate bytes 0
  | .varying => []

def ofKind (name : String) (kind : Kind) : FieldType :=
  ⟨name, kind, kind.width, standardOf kind.width, kind.typeId?.getD 0⟩

def isFixed (type : FieldType) : Bool := type.width.isFixed

end FieldType

end PackedTables
