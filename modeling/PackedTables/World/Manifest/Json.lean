import PackedTables.Json.Printer
import PackedTables.Json.Reader
import PackedTables.Json.Shape
import PackedTables.World.Manifest

/-!
# Manifests as JSON

The text of a manifest is the spread form.  Reading needs every part and checks none against
another.
-/

namespace PackedTables

namespace Fingerprint

def toJson (fingerprint : Fingerprint) : Json := .text fingerprint.text

def ofJson? (json : Json) : Option Fingerprint := (Json.text? json).map fun text => ⟨text⟩

end Fingerprint

namespace Instant

def toJson (instant : Instant) : Json := .text instant.text

def ofJson? (json : Json) : Option Instant := (Json.text? json).bind read?

end Instant

namespace ManifestField

def toJson (field : ManifestField) : Json :=
  Json.record [("name", .text field.name), ("type_name", .text field.typeName)]

def ofJson? (json : Json) : Option ManifestField := do
  match ← Json.slots? ["name", "type_name"] json with
  | [name, typeName] => return ⟨← name.required Json.text?, ← typeName.required Json.text?⟩
  | _ => none

end ManifestField

namespace TableManifest

def toJson (table : TableManifest) : Json :=
  Json.record [("name", .text table.name), ("resource_id", .text table.id),
    ("offchain_only", .bool table.offchain), ("key", .array (table.key.map (·.toJson))),
    ("values", .array (table.values.map (·.toJson))), ("field_layout", .text table.fieldLayout),
    ("key_schema", .text table.keySchema), ("value_schema", .text table.valueSchema),
    ("checksum", table.fingerprint.toJson)]

def ofJson? (json : Json) : Option TableManifest := do
  match ← Json.slots? ["name", "resource_id", "offchain_only", "key", "values", "field_layout",
      "key_schema", "value_schema", "checksum"] json with
  | [name, id, offchain, key, values, fieldLayout, keySchema, valueSchema, fingerprint] =>
      return ⟨← name.required Json.text?, ← id.required Json.text?, ← offchain.required Json.bool?,
        ← key.required (Json.list? ManifestField.ofJson?),
        ← values.required (Json.list? ManifestField.ofJson?),
        ← fieldLayout.required Json.text?, ← keySchema.required Json.text?,
        ← valueSchema.required Json.text?, ← fingerprint.required Fingerprint.ofJson?⟩
  | _ => none

end TableManifest

namespace Manifest

def toJson (manifest : Manifest) : Json :=
  Json.record [("namespace", .text manifest.worldNamespace),
    ("generated_at", manifest.generatedAt.toJson),
    ("tables", .array (manifest.tables.map (·.toJson))),
    ("checksum", manifest.fingerprint.toJson)]

def ofJson? (json : Json) : Option Manifest := do
  match ← Json.slots? ["namespace", "generated_at", "tables", "checksum"] json with
  | [name, generatedAt, tables, fingerprint] =>
      return ⟨← name.required Json.text?, ← generatedAt.required Instant.ofJson?,
        ← tables.required (Json.list? TableManifest.ofJson?),
        ← fingerprint.required Fingerprint.ofJson?⟩
  | _ => none

def text (manifest : Manifest) : String := manifest.toJson.spread

def parse? (text : String) : Option Manifest := (Json.parse? text).bind ofJson?

end Manifest

end PackedTables
