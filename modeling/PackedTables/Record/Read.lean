import PackedTables.Record.Write

/-!
# Reading records

A record is read when its key and value have exactly the lengths that the layout and the header
call for, and the bytes of every field denote a cell of its kind.  A single field is read without
looking at the others.
-/

namespace PackedTables

namespace Kind

/-! ## Cells of fixed width -/

def readBool (strict : Bool) (byte : UInt8) : Except ByteFlaw Cell :=
  if byte = 0 then .ok (.bool false)
  else if byte = 1 then .ok (.bool true)
  else if strict then .error (.boolByte byte)
  else .ok (.bool true)

/-- The number in two's complement, its sign repeated on the left up to a word. -/
def readInt (bytes : Bytes) : Cell :=
  .int (BitVec.ofNat 256
    (Bytes.number (List.replicate (wordLength - bytes.length) (signByte bytes) ++ bytes)))

def readVariant (name : String) (variants : Nat) (byte : UInt8) : Except ByteFlaw Cell :=
  if byte.toNat < variants then .ok (.uint (BitVec.ofNat 256 byte.toNat))
  else .error (.noVariant byte.toNat name)

def read (strict : Bool) (kind : Kind) (bytes : Bytes) : Except ByteFlaw Cell :=
  match kind with
  | .bool =>
      match bytes with
      | byte :: _ => readBool strict byte
      | [] => .error .noByte
  | .uint _ => .ok (.uint (BitVec.ofNat 256 bytes.number))
  | .int _ =>
      match bytes with
      | _ :: _ => .ok (readInt bytes)
      | [] => .error .noByte
  | .enumeration name variants =>
      match bytes with
      | byte :: _ => readVariant name variants byte
      | [] => .error .noByte
  | .fixedBytes _ => .ok (.fixedBytes bytes)
  | .address =>
      if bytes.length = addressWidth then .ok (.address (BitVec.ofNat 160 bytes.number))
      else .error (.addressLength bytes.length)
  | _ => .error .notFixed

/-! ## Payloads -/

/-- Items of a positive width, as many as `length` says. -/
def readItems (strict : Bool) (element : Kind) (width : Nat) (positive : 0 < width)
    (length : Option Nat) (bytes : Bytes) : Except ByteFlaw Cell :=
  if bytes.length % width ≠ 0 then .error (.raggedArray bytes.length width)
  else
    let items := ((bytes.chunks width positive).mapM (read strict element)).map Cell.array
    match length with
    | none => items
    | some expected =>
        if bytes.length / width = expected then items
        else .error (.elementCount (bytes.length / width) expected)

def readArray (strict : Bool) (element : Kind) (length : Option Nat) (bytes : Bytes) :
    Except ByteFlaw Cell :=
  match element.width with
  | .fixed width =>
      if positive : 0 < width then readItems strict element width positive length bytes
      else .error .elementNotFixed
  | .varying => .error .elementNotFixed

def readPayload (strict : Bool) (kind : Kind) (bytes : Bytes) : Except ByteFlaw Cell :=
  match kind with
  | .bytes => .ok (.bytes bytes)
  | .string =>
      match Utf8.decode? bytes with
      | some text => .ok (.string text)
      | none => .error .notUtf8
  | .array element length => readArray strict element length bytes
  | _ => .error .notDynamic

end Kind

namespace Layout

def checkKeyLength (layout : Layout) (key : Bytes) : Except RecordFlaw Unit :=
  if key.length = layout.keyLength then .ok ()
  else .error (.keyLength key.length layout.keyLength)

/-- The bytes of a stretch; the checks before make sure that they are there. -/
def part (bytes : Bytes) (start width : Nat) : Except RecordFlaw Bytes :=
  match bytes.slice? start width with
  | some part => .ok part
  | none => .error (.outside start width bytes.length)

/-- The lengths that stand after the fixed block. -/
def readLengths (layout : Layout) (value : Bytes) : Except RecordFlaw (List Nat) :=
  match value.slice? layout.staticLength Lengths.wordLength with
  | some word => Lengths.ofWord word layout.dynamicSlots.length
  | none => .error (.shortHeader value.length)

/-- Where the payloads start. -/
def payloadStart (layout : Layout) : Nat := layout.staticLength + Lengths.wordLength

/-- The pieces of a key, one a key field. -/
def keyTuple (layout : Layout) (key : Bytes) : Except Fault (List Bytes) :=
  ((layout.checkKeyLength key >>= fun _ =>
    layout.keySlots.mapM fun slot => part key slot.offset slot.width)).mapError
      (.malformedRecord layout.table)

end Layout

namespace Field

def read (rules : CodecRules) (field : Field) (bytes : Bytes) : Except RecordFlaw Cell :=
  (field.type.kind.read rules.strictBool bytes).mapError (.inField field.name)

def readPayload (rules : CodecRules) (field : Field) (bytes : Bytes) : Except RecordFlaw Cell :=
  (field.type.kind.readPayload rules.strictBool bytes).mapError (.inField field.name)

/-- The cell of a stretch, under the name of its field. -/
def readPart (rules : CodecRules) (field : Field) (bytes : Bytes) (start width : Nat) :
    Except RecordFlaw (String × Cell) := do
  let part ← Layout.part bytes start width
  let cell ← field.read rules part
  return (field.name, cell)

def readPayloadPart (rules : CodecRules) (field : Field) (bytes : Bytes) (start width : Nat) :
    Except RecordFlaw (String × Cell) := do
  let part ← Layout.part bytes start width
  let cell ← field.readPayload rules part
  return (field.name, cell)

end Field

namespace CodecRules

def readKey (rules : CodecRules) (layout : Layout) (key : Bytes) :
    Except RecordFlaw (List (String × Cell)) :=
  layout.keySlots.mapM fun slot => slot.field.readPart rules key slot.offset slot.width

def readBlock (rules : CodecRules) (layout : Layout) (value : Bytes) :
    Except RecordFlaw (List (String × Cell)) :=
  if value.length < layout.staticLength then
    .error (.shortBlock value.length layout.staticLength)
  else layout.fixedSlots.mapM fun slot => slot.field.readPart rules value slot.offset slot.width

/-- Payloads one after another from a place on, as long as there are slots and lengths. -/
def readPayloads (rules : CodecRules) (value : Bytes) :
    Nat → List DynamicSlot → List Nat → Except RecordFlaw (List (String × Cell))
  | cursor, slot :: slots, length :: lengths =>
      match slot.field.readPayloadPart rules value cursor length with
      | .error flaw => .error flaw
      | .ok entry =>
          match readPayloads rules value (cursor + length) slots lengths with
          | .error flaw => .error flaw
          | .ok entries => .ok (entry :: entries)
  | _, _, _ => .ok []

/-- What follows the fixed block. -/
def readTail (rules : CodecRules) (layout : Layout) (value : Bytes) :
    Except RecordFlaw (List (String × Cell)) :=
  if layout.hasDynamic then
    match layout.readLengths value with
    | .error flaw => .error flaw
    | .ok lengths =>
        let expected := layout.payloadStart + Lengths.total lengths
        if value.length = expected then
          rules.readPayloads value layout.payloadStart layout.dynamicSlots lengths
        else .error (.valueLength value.length expected)
  else if value.length = layout.staticLength then .ok []
  else .error (.blockLength value.length layout.staticLength)

/-- The cells of a record, key fields first, then value slots in order. -/
def readCells (rules : CodecRules) (layout : Layout) (record : Record) :
    Except RecordFlaw (List (String × Cell)) := do
  layout.checkKeyLength record.key
  let key ← rules.readKey layout record.key
  let block ← rules.readBlock layout record.value
  let tail ← rules.readTail layout record.value
  return key ++ block ++ tail

def decode (rules : CodecRules) (layout : Layout) (record : Record) : Except Fault Row :=
  ((rules.readCells layout record).map Row.ofList).mapError (.malformedRecord layout.table)

/-! ## Single fields -/

def readKeySlot (rules : CodecRules) (layout : Layout) (key : Bytes) (slot : KeySlot) :
    Except RecordFlaw Cell := do
  layout.checkKeyLength key
  let part ← Layout.part key slot.offset slot.width
  slot.field.read rules part

def readFixedSlot (rules : CodecRules) (value : Bytes) (slot : FixedSlot) :
    Except RecordFlaw Cell :=
  match value.slice? slot.offset slot.width with
  | some part => slot.field.read rules part
  | none => .error (.fieldEnd value.length slot.field.name (slot.offset + slot.width))

def readDynamicSlot (rules : CodecRules) (layout : Layout) (value : Bytes) (slot : DynamicSlot) :
    Except RecordFlaw Cell := do
  let lengths ← layout.readLengths value
  let start := layout.payloadStart + Lengths.total (lengths.take slot.ordinal)
  match value.slice? start (lengths[slot.ordinal]?.getD 0) with
  | some part => slot.field.readPayload rules part
  | none => .error (.payloadEnd slot.field.name value.length)

def readAt (rules : CodecRules) (layout : Layout) (record : Record) : Position →
    Except RecordFlaw Cell
  | .key slot => rules.readKeySlot layout record.key slot
  | .fixed slot => rules.readFixedSlot record.value slot
  | .dynamic slot => rules.readDynamicSlot layout record.value slot

def decodeField (rules : CodecRules) (layout : Layout) (record : Record) (name : String) :
    Except Fault Cell :=
  match layout.position? name with
  | some position => (rules.readAt layout record position).mapError (.malformedRecord layout.table)
  | none => .error (.unknownField layout.table name)

end CodecRules

end PackedTables
