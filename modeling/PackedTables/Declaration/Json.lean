import PackedTables.Declaration
import PackedTables.Json.Shape

/-!
# Declarations as JSON
-/

namespace PackedTables

namespace FieldDeclaration

def toJson (field : FieldDeclaration) : Json :=
  Json.record [("name", .text field.name), ("type_name", .text field.typeName)]

def ofJson? (json : Json) : Option FieldDeclaration := do
  match ← Json.slots? ["name", "type_name"] json with
  | [name, typeName] => return ⟨← name.required Json.text?, ← typeName.required Json.text?⟩
  | _ => none

end FieldDeclaration

namespace TableDeclaration

def toJson (table : TableDeclaration) : Json :=
  Json.record [("name", .text table.name), ("fields", .array (table.fields.map (·.toJson))),
    ("key", Json.texts table.key), ("offchain_only", .bool table.offchain)]

/-- The key and the place of storage may be left out. -/
def ofJson? (json : Json) : Option TableDeclaration := do
  match ← Json.slots? ["name", "fields", "key", "offchain_only"] json with
  | [name, fields, key, offchain] =>
      return ⟨← name.required Json.text?, ← fields.required (Json.list? FieldDeclaration.ofJson?),
        ← key.orElse (Json.list? Json.text?) [], ← offchain.orElse Json.bool? false⟩
  | _ => none

end TableDeclaration

namespace EnumDeclaration

def toJson (declaration : EnumDeclaration) : Json :=
  Json.record [("name", .text declaration.name), ("variants", Json.texts declaration.variants)]

def ofJson? (json : Json) : Option EnumDeclaration := do
  match ← Json.slots? ["name", "variants"] json with
  | [name, variants] =>
      return ⟨← name.required Json.text?, ← variants.required (Json.list? Json.text?)⟩
  | _ => none

end EnumDeclaration

namespace WorldDeclaration

def toJson (world : WorldDeclaration) : Json :=
  Json.record [("namespace", Json.orNull .text world.worldNamespace),
    ("enums", .array (world.enums.map (·.toJson))),
    ("user_types", .array (world.aliases.map fun pair => Json.texts [pair.1, pair.2])),
    ("tables", .array (world.tables.map (·.toJson)))]

/-- Every part may be left out. -/
def ofJson? (json : Json) : Option WorldDeclaration := do
  match ← Json.slots? ["namespace", "enums", "user_types", "tables"] json with
  | [name, enums, aliases, tables] =>
      return ⟨← name.orElse (Json.Slot.readNullable Json.text?) none,
        ← enums.orElse (Json.list? EnumDeclaration.ofJson?) [],
        ← aliases.orElse (Json.list? (Json.pair? Json.text? Json.text?)) [],
        ← tables.orElse (Json.list? TableDeclaration.ofJson?) []⟩
  | _ => none

end WorldDeclaration

end PackedTables
