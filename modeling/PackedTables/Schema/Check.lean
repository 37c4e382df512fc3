import PackedTables.Schema.Basic
import PackedTables.Settings.Basic
import PackedTables.Text.Identifier
import PackedTables.Types.Registry

/-!
# Checking declarations

A declaration becomes a schema when its names are sound, its fields are distinct and of known
types, and its key lists distinct fields of fixed width.  The first fault in reading order is the
answer: the table, then each field, then each key entry.
-/

namespace PackedTables

namespace SchemaRules

/-- Field names that every table keeps for itself. -/
def builtinNames : List String := ["_tableId", "_keyTuple", "_fieldLayout", "_store"]

def isReserved (rules : SchemaRules) (name : String) : Bool :=
  builtinNames.contains name || rules.reservedNames.contains name

def nameFlaw? (rules : SchemaRules) (name : String) : Option NameFlaw :=
  if name = "" then some .empty
  else if rules.identifierNames && !isIdentifier name then some .notIdentifier
  else none

def checkName (rules : SchemaRules) (name : String) : Except Fault Unit :=
  match rules.nameFlaw? name with
  | some flaw => .error (.invalidName name flaw)
  | none => .ok ()

/-- The empty namespace needs no name. -/
def checkNamespace (rules : SchemaRules) (name : String) : Except Fault Unit :=
  if name = "" then .ok () else rules.checkName name

/-- One field after fields of the names `seen`. -/
def checkField (rules : SchemaRules) (registry : Registry) (table : String) (seen : List String)
    (declaration : FieldDeclaration) : Except Fault Field := do
  rules.checkName declaration.name
  if rules.isReserved declaration.name then .error (.reservedName table declaration.name)
  else if seen.contains declaration.name then .error (.duplicateField table declaration.name)
  else
    let type ←
      (registry.resolve declaration.typeName).mapError (Fault.inField table declaration.name)
    return ⟨declaration.name, type⟩

def checkFields (rules : SchemaRules) (registry : Registry) (table : String) :
    List String → List FieldDeclaration → Except Fault (List Field)
  | _, [] => .ok []
  | seen, declaration :: rest =>
      match rules.checkField registry table seen declaration with
      | .error fault => .error fault
      | .ok field =>
          match checkFields rules registry table (declaration.name :: seen) rest with
          | .error fault => .error fault
          | .ok fields => .ok (field :: fields)

/-- Key entries after entries of the names `seen`. -/
def checkKey (table : String) (fields : List Field) : List String → List String → Except Fault Unit
  | _, [] => .ok ()
  | seen, name :: rest =>
      match fields.find? fun field => field.name == name with
      | none => .error (.unknownKeyField table name)
      | some field =>
          if seen.contains name then .error (.duplicateKeyField table name)
          else if field.type.isFixed then checkKey table fields (name :: seen) rest
          else .error (.dynamicKeyField table name field.type.name)

def validate (rules : SchemaRules) (registry : Registry) (declaration : TableDeclaration) :
    Except Fault Schema := do
  rules.checkName declaration.name
  let fields ← rules.checkFields registry declaration.name [] declaration.fields
  checkKey declaration.name fields [] declaration.key
  return ⟨declaration.name, fields, declaration.key, declaration.offchain⟩

end SchemaRules

end PackedTables
