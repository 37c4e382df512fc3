import PackedTables.Layout.Word
import PackedTables.Time.Instant
import PackedTables.World.Basic
import PackedTables.World.Fingerprint

/-!
# Manifests

What a world stored at some instant, told in texts.  The fingerprint of a table covers its
identifier and its three layout words, and that of a world the fingerprints of its tables in order.
-/

namespace PackedTables

structure ManifestField where
  name : String
  typeName : String
  deriving DecidableEq

def ManifestField.ofField (field : Field) : ManifestField := ⟨field.name, field.type.name⟩

structure TableManifest where
  name : String
  id : String
  offchain : Bool
  key : List ManifestField
  values : List ManifestField
  fieldLayout : String
  keySchema : String
  valueSchema : String
  fingerprint : Fingerprint
  deriving DecidableEq

structure Manifest where
  worldNamespace : String
  generatedAt : Instant
  tables : List TableManifest
  fingerprint : Fingerprint
  deriving DecidableEq

namespace Table

/-- The byte strings that the fingerprint of a table covers. -/
def fingerprintParts (table : Table) : List Bytes :=
  [table.id.word, table.layout.fieldLayout, table.layout.keySchema, table.layout.valueSchema]

def fingerprint (table : Table) : Fingerprint := Fingerprint.ofParts table.fingerprintParts

def manifest (table : Table) : TableManifest where
  name := table.name
  id := table.id.text
  offchain := table.schema.offchain
  key := table.layout.keySlots.map fun slot => .ofField slot.field
  values := table.layout.valueFields.map .ofField
  fieldLayout := Hex.encodeMarked table.layout.fieldLayout
  keySchema := Hex.encodeMarked table.layout.keySchema
  valueSchema := Hex.encodeMarked table.layout.valueSchema
  fingerprint := table.fingerprint

end Table

namespace Manifest

/-- The byte strings that the fingerprint of a world covers. -/
def fingerprintParts (tables : List TableManifest) : List Bytes :=
  tables.map fun table => Utf8.encode table.fingerprint.text

def ofTables (worldNamespace : String) (generatedAt : Instant) (tables : List TableManifest) :
    Manifest :=
  ⟨worldNamespace, generatedAt, tables, Fingerprint.ofParts (fingerprintParts tables)⟩

def find? (manifest : Manifest) (name : String) : Option TableManifest :=
  manifest.tables.find? fun table => table.name == name

def sameLayout (first second : Manifest) : Bool := first.fingerprint == second.fingerprint

end Manifest

def World.manifest (world : World) (generatedAt : Instant) : Manifest :=
  .ofTables world.worldNamespace generatedAt (world.tables.map (·.manifest))

end PackedTables
