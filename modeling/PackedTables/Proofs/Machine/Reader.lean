import PackedTables.Proofs.Layout.Sound
import PackedTables.Proofs.Machine.Step
import PackedTables.Record.Read

/-!
# Reading on a machine

Records as a machine reads them that can trap.  Cells, flaws and their order are those of the reader
that has no words.
-/

namespace PackedTables.Machine

variable {ε : Type}

/-! ## Cells -/

/-- Bytes as a number of two hundred and fifty-six bits. -/
def wideWord (bytes : Bytes) : Run ε (BitVec 256) :=
  if bytes.length ≤ Kind.wordLength then .ok (BitVec.ofNat 256 bytes.number) else trap .wide

def read (strict : Bool) (kind : Kind) (bytes : Bytes) : Run ByteFlaw Cell :=
  match kind with
  | .bool => do
      let byte ← item bytes 0
      lift (Kind.readBool strict byte)
  | .uint _ => do
      let word ← wideWord bytes
      return .uint word
  | .int _ => do
      let byte ← item bytes 0
      let room ← subtract Kind.wordLength bytes.length
      let word ← copy (List.replicate Kind.wordLength (Kind.signByte [byte])) room bytes
      return .int (BitVec.ofNat 256 word.number)
  | .enumeration name variants => do
      let byte ← item bytes 0
      lift (Kind.readVariant name variants byte)
  | .fixedBytes _ => return .fixedBytes bytes
  | .address =>
      if bytes.length = Kind.addressWidth then do
        let word ← copy (List.replicate Kind.addressWidth 0) 0 bytes
        return .address (BitVec.ofNat 160 word.number)
      else refuse (.addressLength bytes.length)
  | _ => refuse .notFixed

def checkCount (length : Option Nat) (count : Nat) : Except ByteFlaw Unit :=
  match length with
  | none => .ok ()
  | some expected => if count = expected then .ok () else .error (.elementCount count expected)

def readArray (strict : Bool) (element : Kind) (length : Option Nat) (bytes : Bytes) :
    Run ByteFlaw Cell :=
  match element.width with
  | .varying => refuse .elementNotFixed
  | .fixed width => do
      let rest ← remainder bytes.length width
      if rest ≠ 0 then refuse (.raggedArray bytes.length width)
      else
        let count ← quotient bytes.length width
        lift (checkCount length count)
        let parts ← chunks width bytes
        (parts.mapM (read strict element)).map Cell.array

def readPayload (strict : Bool) (kind : Kind) (bytes : Bytes) : Run ByteFlaw Cell :=
  match kind with
  | .bytes => return .bytes bytes
  | .string =>
      match Utf8.decode? bytes with
      | some text => return .string text
      | none => refuse .notUtf8
  | .array element length => readArray strict element length bytes
  | _ => refuse .notDynamic

def readField (rules : CodecRules) (field : Field) (bytes : Bytes) : Run RecordFlaw Cell :=
  mapRefusal (.inField field.name) (read rules.strictBool field.type.kind bytes)

def readPayloadField (rules : CodecRules) (field : Field) (bytes : Bytes) : Run RecordFlaw Cell :=
  mapRefusal (.inField field.name) (readPayload rules.strictBool field.type.kind bytes)

/-! ## The lengths header -/

/-- The bytes of a word of sixty-four bits. -/
def counterLength : Nat := 8

/-- The number of the bytes before a place, by way of a word of the machine. -/
def numberBefore (word : Bytes) (stop width : Nat) : Run ε Nat := do
  let room ← subtract counterLength width
  let start ← subtract stop width
  let part ← stretch word start stop
  let counter ← copy (List.replicate counterLength 0) room part
  return counter.number

def slotStop (ordinal : Nat) : Run ε Nat := do
  let slots ← subtract Lengths.wordLength Lengths.totalWidth
  let below ← multiply Lengths.slotWidth ordinal
  subtract slots below

/-- The lengths of the slots below `count`; the others must hold zero. -/
def readSlots (word : Bytes) (count : Nat) : List Nat → Run RecordFlaw (List Nat)
  | [] => return []
  | ordinal :: rest => do
      let stop ← slotStop ordinal
      let length ← numberBefore word stop Lengths.slotWidth
      if ordinal < count then
        let lengths ← readSlots word count rest
        return length :: lengths
      else if length = 0 then readSlots word count rest
      else refuse (.unusedSlot length ordinal)

def ofWord (word : Bytes) (count : Nat) : Run RecordFlaw (List Nat) :=
  if word.length ≠ Lengths.wordLength then refuse (.headerLength word.length Lengths.wordLength)
  else if Limits.maxDynamicFields < count then
    refuse (.headerCapacity count Limits.maxDynamicFields)
  else do
    let recorded ← numberBefore word Lengths.wordLength Lengths.totalWidth
    let lengths ← readSlots word count (List.range Limits.maxDynamicFields)
    let total ← sum lengths
    if total = recorded then return lengths else refuse (.totalMismatch recorded total)

def readLengths (layout : Layout) (value : Bytes) : Run RecordFlaw (List Nat) := do
  let stop ← add layout.staticLength Lengths.wordLength
  match stretch? value layout.staticLength stop with
  | some word => ofWord word layout.dynamicSlots.length
  | none => refuse (.shortHeader value.length)

/-! ## Whole records -/

def part (bytes : Bytes) (start width : Nat) : Run RecordFlaw Bytes := do
  let stop ← add start width
  stretch bytes start stop

def readPart (rules : CodecRules) (bytes : Bytes) (span : Span) :
    Run RecordFlaw (String × Cell) := do
  let part ← part bytes span.offset span.width
  let cell ← readField rules span.field part
  return (span.field.name, cell)

def readPayloads (rules : CodecRules) (value : Bytes) :
    Nat → List DynamicSlot → List Nat → Run RecordFlaw (List (String × Cell))
  | cursor, slot :: slots, length :: lengths => do
      let stop ← add cursor length
      let part ← stretch value cursor stop
      let cell ← readPayloadField rules slot.field part
      let entries ← readPayloads rules value stop slots lengths
      return (slot.field.name, cell) :: entries
  | _, _, _ => return []

def readKey (rules : CodecRules) (layout : Layout) (key : Bytes) :
    Run RecordFlaw (List (String × Cell)) :=
  layout.keySlots.mapM fun slot => readPart rules key slot.span

def readBlock (rules : CodecRules) (layout : Layout) (value : Bytes) :
    Run RecordFlaw (List (String × Cell)) :=
  if value.length < layout.staticLength then
    refuse (.shortBlock value.length layout.staticLength)
  else layout.fixedSlots.mapM fun slot => readPart rules value slot.span

def readTail (rules : CodecRules) (layout : Layout) (value : Bytes) :
    Run RecordFlaw (List (String × Cell)) :=
  if layout.hasDynamic then do
    let lengths ← readLengths layout value
    let start ← add layout.staticLength Lengths.wordLength
    let total ← sum lengths
    let expected ← add start total
    if value.length = expected then readPayloads rules value start layout.dynamicSlots lengths
    else refuse (.valueLength value.length expected)
  else if value.length = layout.staticLength then return []
  else refuse (.blockLength value.length layout.staticLength)

def readCells (rules : CodecRules) (layout : Layout) (record : Record) :
    Run RecordFlaw (List (String × Cell)) := do
  lift (layout.checkKeyLength record.key)
  let key ← readKey rules layout record.key
  let block ← readBlock rules layout record.value
  let tail ← readTail rules layout record.value
  return key ++ block ++ tail

def decode (rules : CodecRules) (layout : Layout) (record : Record) : Run Fault Row :=
  mapRefusal (.malformedRecord layout.table) ((readCells rules layout record).map Row.ofList)

/-! ## Single fields and keys -/

def readDynamicSlot (rules : CodecRules) (layout : Layout) (value : Bytes) (slot : DynamicSlot) :
    Run RecordFlaw Cell := do
  let lengths ← readLengths layout value
  let header ← add layout.staticLength Lengths.wordLength
  let before ← stretch lengths 0 slot.ordinal
  let skipped ← sum before
  let start ← add header skipped
  let length ← item lengths slot.ordinal
  let stop ← add start length
  match stretch? value start stop with
  | some part => readPayloadField rules slot.field part
  | none => refuse (.payloadEnd slot.field.name value.length)

def readAt (rules : CodecRules) (layout : Layout) (record : Record) :
    Position → Run RecordFlaw Cell
  | .key slot => do
      lift (layout.checkKeyLength record.key)
      let part ← part record.key slot.offset slot.width
      readField rules slot.field part
  | .fixed slot => do
      let stop ← add slot.offset slot.width
      match stretch? record.value slot.offset stop with
      | some part => readField rules slot.field part
      | none => refuse (.fieldEnd record.value.length slot.field.name stop)
  | .dynamic slot => readDynamicSlot rules layout record.value slot

def decodeField (rules : CodecRules) (layout : Layout) (record : Record) (name : String) :
    Run Fault Cell :=
  match layout.position? name with
  | some position =>
      mapRefusal (.malformedRecord layout.table) (readAt rules layout record position)
  | none => refuse (.unknownField layout.table name)

def keyTuple (layout : Layout) (key : Bytes) : Run Fault (List Bytes) :=
  mapRefusal (.malformedRecord layout.table) do
    lift (layout.checkKeyLength key)
    layout.keySlots.mapM fun slot => part key slot.offset slot.width

end PackedTables.Machine
