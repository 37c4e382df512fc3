import PackedTables.Layout.Basic
import PackedTables.Record.Basic
import PackedTables.Record.Lengths
import PackedTables.Row.Basic
import PackedTables.Text.Utf8

/-!
# Writing records

The key is the cells of the key fields one after another.  The value is the fixed block, and for a
table with dynamic fields the lengths header and the payloads.  An omitted value is written as the
standard form of its type.
-/

namespace PackedTables

/-- Why a cell cannot be written as a kind. -/
inductive CellFault
  | mismatch (found : String)
  | refused (flaw : CellFlaw)
  deriving DecidableEq

/-- The fault of a cell of a field, for which a cell of `expected` was due. -/
def CellFault.inField (table : String) (field : Field) (expected : String) : CellFault → Fault
  | mismatch found => .typeMismatch table field.name expected found
  | refused flaw => .invalidCell table field.name flaw

namespace Kind

/-! ## Cells of fixed width -/

def wordLength : Nat := 32

/-- The low bytes of a word, when all others are zero. -/
def writeUint (bits : Nat) (word : BitVec 256) : Except CellFault Bytes :=
  let bytes := Bytes.bigEndian wordLength word.toNat
  let dropped := wordLength - bits / 8
  if (bytes.take dropped).all (· == 0) then .ok (bytes.drop dropped)
  else .error (.refused (.uintRange word bits))

/-- The byte that extends a number in two's complement on the left. -/
def signByte : Bytes → UInt8
  | [] => 0
  | first :: _ => if 128 ≤ first.toNat then 255 else 0

/-- The low bytes of a word, when all others repeat their sign. -/
def writeInt (bits : Nat) (word : BitVec 256) : Except CellFault Bytes :=
  let bytes := Bytes.bigEndian wordLength word.toNat
  let dropped := wordLength - bits / 8
  let sign := signByte (bytes.drop dropped)
  if (bytes.take dropped).all (· == sign) then .ok (bytes.drop dropped)
  else .error (.refused (.intRange word bits))

def write (kind : Kind) (cell : Cell) : Except CellFault Bytes :=
  match kind, cell with
  | .bool, .bool value => .ok [if value then 1 else 0]
  | .uint bits, .uint word => writeUint bits word
  | .int bits, .int word => writeInt bits word
  | .enumeration name variants, .uint word =>
      if word.toNat < variants then .ok (Bytes.bigEndian 1 word.toNat)
      else .error (.refused (.noVariant word name variants))
  | .fixedBytes length, .fixedBytes stored =>
      if stored.length = length then .ok stored
      else .error (.refused (.byteCount length stored.length))
  | .address, .address value => .ok (Bytes.bigEndian addressWidth value.toNat)
  | _, cell => .error (.mismatch cell.form)

end Kind

namespace Field

def write (table : String) (field : Field) (cell : Cell) : Except Fault Bytes :=
  (field.type.kind.write cell).mapError (CellFault.inField table field field.type.name)

/-! ## Payloads -/

def writeItem (table : String) (field : Field) (element : Kind) (cell : Cell) : Except Fault Bytes :=
  (element.write cell).mapError (CellFault.inField table field (field.type.name ++ " element"))

def writeItems (table : String) (field : Field) (element : Kind) (items : List Cell) :
    Except Fault Bytes :=
  List.flatten <$> items.mapM (writeItem table field element)

def writePayload (table : String) (field : Field) (cell : Cell) : Except Fault Bytes :=
  match field.type.kind, cell with
  | .bytes, .bytes stored => .ok stored
  | .string, .string text => .ok (Utf8.encode text)
  | .array element none, .array items => writeItems table field element items
  | .array element (some length), .array items =>
      if items.length = length then writeItems table field element items
      else .error (.invalidCell table field.name (.elementCount length items.length))
  | _, cell => .error (.typeMismatch table field.name field.type.name cell.form)

end Field

namespace Layout

def writeKeySlot (layout : Layout) (row : Row) (slot : KeySlot) : Except Fault Bytes :=
  match row.get? slot.field.name with
  | some cell => slot.field.write layout.table cell
  | none => .error (.missingKeyField layout.table slot.field.name)

def writeKey (layout : Layout) (row : Row) : Except Fault Bytes :=
  List.flatten <$> layout.keySlots.mapM (layout.writeKeySlot row)

def writeFixedSlot (layout : Layout) (row : Row) (slot : FixedSlot) : Except Fault Bytes :=
  match row.get? slot.field.name with
  | some cell => slot.field.write layout.table cell
  | none => .ok slot.field.type.standard

def writeBlock (layout : Layout) (row : Row) : Except Fault Bytes :=
  List.flatten <$> layout.fixedSlots.mapM (layout.writeFixedSlot row)

def writeDynamicSlot (layout : Layout) (row : Row) (slot : DynamicSlot) : Except Fault Bytes :=
  match row.get? slot.field.name with
  | some cell => slot.field.writePayload layout.table cell
  | none => .ok slot.field.type.standard

/-- The first name in a row that is no field. -/
def strangeName? (layout : Layout) (row : Row) : Option String :=
  row.names.find? fun name => (layout.position? name).isNone

end Layout

namespace CodecRules

def payloadLimit (rules : CodecRules) : Nat := min rules.maxDynamicLength Limits.maxDynamicLength

def checkPayload (rules : CodecRules) (table : String) (field : Field) (payload : Bytes) :
    Except Fault Bytes :=
  if rules.payloadLimit < payload.length then
    .error (.invalidCell table field.name (.payloadLimit payload.length rules.payloadLimit))
  else .ok payload

def writePayload (rules : CodecRules) (layout : Layout) (row : Row) (slot : DynamicSlot) :
    Except Fault Bytes :=
  layout.writeDynamicSlot row slot >>= rules.checkPayload layout.table slot.field

def writePayloads (rules : CodecRules) (layout : Layout) (row : Row) : Except Fault (List Bytes) :=
  layout.dynamicSlots.mapM (rules.writePayload layout row)

/-- The header for payloads, then the payloads. -/
def joinPayloads (table : String) (payloads : List Bytes) : Except Fault Bytes :=
  match Lengths.toWord (payloads.map List.length) with
  | .ok header => .ok (header ++ payloads.flatten)
  | .error flaw => .error (.layoutLimit table flaw)

/-- What follows the fixed block. -/
def writeTail (rules : CodecRules) (layout : Layout) (row : Row) : Except Fault Bytes :=
  if layout.hasDynamic then rules.writePayloads layout row >>= joinPayloads layout.table
  else .ok []

def encode (rules : CodecRules) (layout : Layout) (row : Row) : Except Fault Record :=
  match layout.strangeName? row with
  | some name => .error (.unknownField layout.table name)
  | none => do
      let key ← layout.writeKey row
      let block ← layout.writeBlock row
      let tail ← rules.writeTail layout row
      return ⟨key, block ++ tail⟩

end CodecRules

end PackedTables
