import PackedTables.Bytes

/-!
# Cells

The values of fields.  Numbers have two hundred and fifty-six bits; a signed one is a word in two's
complement.  An address has twenty bytes.
-/

namespace PackedTables

inductive Cell
  | bool (value : Bool)
  | uint (word : BitVec 256)
  | int (word : BitVec 256)
  | fixedBytes (bytes : Bytes)
  | address (value : BitVec 160)
  | bytes (bytes : Bytes)
  | string (text : String)
  | array (items : List Cell)

namespace Cell

/-- The form of a cell in words. -/
def form : Cell → String
  | bool _ => "bool"
  | uint _ => "uint"
  | int _ => "int"
  | fixedBytes _ => "fixed bytes"
  | address _ => "address"
  | bytes _ => "bytes"
  | string _ => "string"
  | array _ => "array"

/-- A machine integer: its eight bytes at the end of a word that is filled with its sign. -/
def ofInt64 (value : Int64) : Cell :=
  let fill : UInt8 := if value < 0 then 0xFF else 0
  let word := Bytes.overwrite (List.replicate 32 fill) 24
    (Bytes.bigEndian 8 value.toBitVec.toNat)
  .int (BitVec.ofNat 256 (Bytes.number word))

def ofUInt64 (value : UInt64) : Cell := .uint (value.toBitVec.setWidth 256)

def uint? : Cell → Option (BitVec 256)
  | uint word => some word
  | _ => none

def address? : Cell → Option (BitVec 160)
  | address value => some value
  | _ => none

def string? : Cell → Option String
  | string text => some text
  | _ => none

/-! ## Equality -/

mutual

def same : Cell → Cell → Bool
  | bool first, bool second => first == second
  | uint first, uint second => first == second
  | int first, int second => first == second
  | fixedBytes first, fixedBytes second => first == second
  | address first, address second => first == second
  | bytes first, bytes second => first == second
  | string first, string second => first == second
  | array first, array second => sameItems first second
  | _, _ => false

def sameItems : List Cell → List Cell → Bool
  | [], [] => true
  | first :: rest, second :: others => same first second && sameItems rest others
  | _, _ => false

end

mutual

theorem same_iff : ∀ first second : Cell, same first second = true ↔ first = second
  | bool _, second => by cases second <;> simp [same]
  | uint _, second => by cases second <;> simp [same]
  | int _, second => by cases second <;> simp [same]
  | fixedBytes _, second => by cases second <;> simp [same]
  | address _, second => by cases second <;> simp [same]
  | bytes _, second => by cases second <;> simp [same]
  | string _, second => by cases second <;> simp [same]
  | array items, second => by
      cases second with
      | array others => simp [same, sameItems_iff items others]
      | _ => simp [same]

theorem sameItems_iff : ∀ first second : List Cell, sameItems first second = true ↔ first = second
  | [], second => by cases second <;> simp [sameItems]
  | item :: rest, second => by
      cases second with
      | nil => simp [sameItems]
      | cons other others =>
          simp [sameItems, same_iff item other, sameItems_iff rest others]

end

instance : DecidableEq Cell := fun first second =>
  decidable_of_iff (same first second = true) (same_iff first second)

end Cell

end PackedTables
