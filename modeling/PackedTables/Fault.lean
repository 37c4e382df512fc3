import PackedTables.Bytes.Hex

/-!
# Faults

Everything that a world, a schema or a record can be refused for, by cause.  The wording of each
cause is fixed by its `message`.
-/

namespace PackedTables

/-! ## Names -/

inductive NameFlaw
  | empty
  | notIdentifier
  | namespaceSettled
  | namespaceTooLong (limit : Nat)
  deriving DecidableEq

def NameFlaw.message : NameFlaw → String
  | empty => "name is empty"
  | notIdentifier => "not an identifier"
  | namespaceSettled => "namespace changed after tables were registered"
  | namespaceTooLong limit => s!"namespace longer than {limit} bytes"

/-! ## Limits of a layout -/

inductive LimitFlaw
  | keyFields (count limit : Nat)
  | valueFields (count limit : Nat)
  | dynamicFields (count limit : Nat)
  | fixedBlock (length limit : Nat)
  | lengthCount (count limit : Nat)
  | lengthRange (length limit : Nat)
  deriving DecidableEq

def LimitFlaw.message : LimitFlaw → String
  | keyFields count limit => s!"{count} key fields exceeds limit of {limit}"
  | valueFields count limit => s!"{count} value fields exceeds limit of {limit}"
  | dynamicFields count limit => s!"{count} dynamic fields exceeds limit of {limit}"
  | fixedBlock length limit => s!"fixed block of {length} bytes exceeds limit of {limit}"
  | lengthCount count limit => s!"{count} dynamic lengths exceeds header capacity of {limit}"
  | lengthRange length limit => s!"dynamic length {length} exceeds {limit}"

/-! ## Cells that cannot be written -/

inductive CellFlaw
  | uintRange (value : BitVec 256) (bits : Nat)
  | intRange (value : BitVec 256) (bits : Nat)
  | noVariant (value : BitVec 256) (name : String) (variants : Nat)
  | byteCount (expected found : Nat)
  | elementCount (expected found : Nat)
  | payloadLimit (length limit : Nat)
  deriving DecidableEq

def CellFlaw.message : CellFlaw → String
  | uintRange value bits => s!"{value.toNat} does not fit in uint{bits}"
  | intRange value bits => s!"{value.toInt} does not fit in int{bits}"
  | noVariant value name variants =>
      s!"{value.toNat} is not a variant of {name} ({variants} variants)"
  | byteCount expected found => s!"expected {expected} bytes, got {found}"
  | elementCount expected found => s!"expected {expected} elements, got {found}"
  | payloadLimit length limit => s!"{length} bytes exceeds dynamic length limit of {limit}"

/-! ## Records that cannot be read -/

/-- Why the bytes of one field denote no cell of its kind. -/
inductive ByteFlaw
  | boolByte (byte : UInt8)
  | noVariant (index : Nat) (name : String)
  | notUtf8
  | raggedArray (length width : Nat)
  | elementCount (found expected : Nat)
  | addressLength (found : Nat)
  | noByte
  | notFixed
  | notDynamic
  | elementNotFixed
  deriving DecidableEq

def ByteFlaw.message : ByteFlaw → String
  | boolByte byte => "invalid bool byte " ++ Hex.encodeMarked [byte]
  | noVariant index name => s!"{index} is not a variant of {name}"
  | notUtf8 => "string is not valid UTF-8"
  | raggedArray length width => s!"array payload of {length} bytes is not a multiple of {width}"
  | elementCount found expected => s!"array has {found} elements, expected {expected}"
  | addressLength found => s!"address is {found} bytes"
  | noByte => "no byte to read"
  | notFixed => "not a fixed-width kind"
  | notDynamic => "not a dynamic kind"
  | elementNotFixed => "array element is not fixed-width"

inductive RecordFlaw
  | keyLength (found expected : Nat)
  | shortBlock (found needed : Nat)
  | blockLength (found expected : Nat)
  | shortHeader (found : Nat)
  | headerLength (found expected : Nat)
  | headerCapacity (count limit : Nat)
  | unusedSlot (length slot : Nat)
  | totalMismatch (total sum : Nat)
  | valueLength (found expected : Nat)
  | fieldEnd (found : Nat) (field : String) (stop : Nat)
  | payloadEnd (field : String) (found : Nat)
  | outside (start width found : Nat)
  | inField (name : String) (flaw : ByteFlaw)
  deriving DecidableEq

def RecordFlaw.message : RecordFlaw → String
  | keyLength found expected => s!"key is {found} bytes, expected {expected}"
  | shortBlock found needed => s!"value is {found} bytes, fixed block needs {needed}"
  | blockLength found expected => s!"value is {found} bytes, expected exactly {expected}"
  | shortHeader found => s!"value is {found} bytes, too short for the lengths header"
  | headerLength found expected => s!"lengths header is {found} bytes, expected {expected}"
  | headerCapacity count limit => s!"{count} dynamic fields exceeds header capacity of {limit}"
  | unusedSlot length slot => s!"lengths header declares {length} bytes for unused slot {slot}"
  | totalMismatch total sum =>
      s!"lengths header total {total} does not match field lengths sum {sum}"
  | valueLength found expected => s!"value is {found} bytes, header implies {expected}"
  | fieldEnd found field stop => s!"value is {found} bytes, field {field} ends at {stop}"
  | payloadEnd field found => s!"length prefix of {field} reads past end of {found}-byte value"
  | outside start width found => s!"{width} bytes at {start} lie outside {found} bytes"
  | inField name flaw => s!"field {name}: {flaw.message}"

/-! ## Settings out of range -/

inductive SettingsFlaw
  | valueFields (limit : Nat)
  | keyFields (limit : Nat)
  | dynamicFields (limit : Nat)
  | staticLength (limit : Nat)
  | dynamicLength (limit : Nat)
  deriving DecidableEq

def SettingsFlaw.message : SettingsFlaw → String
  | valueFields limit => s!"max_value_fields must be in [1, {limit}]"
  | keyFields limit => s!"max_key_fields must be <= {limit}"
  | dynamicFields limit => s!"max_dynamic_fields must be <= {limit}"
  | staticLength limit => s!"max_static_length must be in [1, {limit}]"
  | dynamicLength limit => s!"max_dynamic_length must be in [1, {limit}]"

/-! ## All faults -/

inductive Fault
  | unknownType (name : String) (place : Option (String × String))
  | duplicateType (name : String)
  | invalidEnum (name : String) (variants : Nat)
  | duplicateField (table field : String)
  | duplicateKeyField (table field : String)
  | unknownKeyField (table field : String)
  | dynamicKeyField (table field typeName : String)
  | reservedName (table field : String)
  | invalidName (name : String) (flaw : NameFlaw)
  | emptySchema (table : String)
  | layoutLimit (table : String) (flaw : LimitFlaw)
  | duplicateTable (name : String)
  | unknownTable (name : String) (suggestion : Option String)
  | missingKeyField (table field : String)
  | unknownField (table field : String)
  | typeMismatch (table field expected found : String)
  | invalidCell (table field : String) (flaw : CellFlaw)
  | malformedRecord (table : String) (flaw : RecordFlaw)
  | invalidSettings (flaw : SettingsFlaw)
  deriving DecidableEq

/-- A type that is not known is told with the table and the field that ask for it. -/
def Fault.inField (table field : String) : Fault → Fault
  | unknownType name _ => unknownType name (some (table, field))
  | fault => fault

def Fault.message : Fault → String
  | unknownType name none => s!"Unknown type '{name}'"
  | unknownType name (some (table, field)) => s!"Unknown type '{name}' for field {table}.{field}"
  | duplicateType name => s!"Type already registered: {name}"
  | invalidEnum name variants =>
      s!"Invalid enum {name}: enum must have between 1 and 256 variants, got {variants}"
  | duplicateField table field => s!"Duplicate field '{field}' in table {table}"
  | duplicateKeyField table field => s!"Key field '{field}' listed more than once in table {table}"
  | unknownKeyField table field => s!"Key field '{field}' is not declared in table {table}"
  | dynamicKeyField table field typeName =>
      s!"Key field '{field}' in table {table} has variable-width type {typeName}"
  | reservedName table field => s!"Field name '{field}' in table {table} is reserved"
  | invalidName name flaw => s!"Invalid name '{name}': {flaw.message}"
  | emptySchema table => s!"Table {table} declares no fields"
  | layoutLimit table flaw => s!"Layout limit exceeded in table {table}: {flaw.message}"
  | duplicateTable name => s!"Table already registered: {name}"
  | unknownTable name none => s!"Unknown table: {name}"
  | unknownTable name (some suggestion) => s!"Unknown table: {name} (did you mean {suggestion}?)"
  | missingKeyField table field => s!"Missing value for key field '{field}' in table {table}"
  | unknownField table field => s!"Field '{field}' is not part of table {table}"
  | typeMismatch table field expected found =>
      s!"Type mismatch for {table}.{field}: expected {expected}, got {found}"
  | invalidCell table field flaw => s!"Invalid value for {table}.{field}: {flaw.message}"
  | malformedRecord table flaw => s!"Malformed record for table {table}: {flaw.message}"
  | invalidSettings flaw => s!"Invalid configuration: {flaw.message}"

end PackedTables
