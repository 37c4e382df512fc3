import PackedTables.Record.Read
import PackedTables.World.Draft
import PackedTables.World.Suggestion

/-!
# Worlds

A finished draft.  Its tables are found by name or by identifier, and their rows are written and
read under its settings.  An unknown name is answered with the closest known one.
-/

namespace PackedTables

structure World where
  worldNamespace : String
  registry : Registry
  settings : Settings
  catalog : Catalog
  deriving DecidableEq

def Draft.build (draft : Draft) : World :=
  ⟨draft.worldNamespace, draft.registry, draft.settings, draft.catalog⟩

namespace World

/-- A whole world at once; a namespace that it declares goes before that of the settings. -/
def ofDeclaration (declaration : WorldDeclaration) (settings : Settings) : Except Fault World := do
  let registry ← Registry.standard.registerAll declaration.enums declaration.aliases
  let draft ← Draft.withSettings registry settings
  let draft ← match declaration.worldNamespace with
    | some name => draft.inNamespace name
    | none => .ok draft
  let draft ← draft.registerAll declaration.tables
  return draft.build

def tables (world : World) : List Table := world.catalog.tables

def size (world : World) : Nat := world.catalog.size

def isEmpty (world : World) : Bool := world.catalog.isEmpty

def suggestion? (world : World) (name : String) : Option String :=
  Suggestion.closest? (world.tables.map Table.name) name

def table (world : World) (name : String) : Except Fault Table :=
  match world.catalog.find? name with
  | some table => .ok table
  | none => .error (.unknownTable name (world.suggestion? name))

def findId? (world : World) (id : TableId) : Option Table := world.catalog.findId? id

def encode (world : World) (name : String) (row : Row) : Except Fault Record := do
  let table ← world.table name
  world.settings.codec.encode table.layout row

def decode (world : World) (name : String) (record : Record) : Except Fault Row := do
  let table ← world.table name
  world.settings.codec.decode table.layout record

def decodeField (world : World) (name : String) (record : Record) (field : String) :
    Except Fault Cell := do
  let table ← world.table name
  world.settings.codec.decodeField table.layout record field

end World

end PackedTables
