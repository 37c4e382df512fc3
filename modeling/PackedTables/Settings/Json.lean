import PackedTables.Json.Shape
import PackedTables.Settings.Basic

/-!
# Settings as JSON

Every part may be left out and is then standard.
-/

namespace PackedTables

namespace SchemaRules

def toJson (rules : SchemaRules) : Json :=
  Json.record [("reserved_names", Json.texts rules.reservedNames),
    ("identifier_names", .bool rules.identifierNames),
    ("max_key_fields", .int rules.maxKeyFields),
    ("max_value_fields", .int rules.maxValueFields),
    ("max_dynamic_fields", .int rules.maxDynamicFields),
    ("max_static_length", .int rules.maxStaticLength)]

def ofJson? (json : Json) : Option SchemaRules := do
  let standard : SchemaRules := {}
  let count? := Json.natural? Numeral.maxWord
  match ← Json.slots? ["reserved_names", "identifier_names", "max_key_fields", "max_value_fields",
      "max_dynamic_fields", "max_static_length"] json with
  | [reserved, identifiers, keyFields, valueFields, dynamicFields, staticLength] =>
      return ⟨← reserved.orElse (Json.list? Json.text?) standard.reservedNames,
        ← identifiers.orElse Json.bool? standard.identifierNames,
        ← keyFields.orElse count? standard.maxKeyFields,
        ← valueFields.orElse count? standard.maxValueFields,
        ← dynamicFields.orElse count? standard.maxDynamicFields,
        ← staticLength.orElse count? standard.maxStaticLength⟩
  | _ => none

end SchemaRules

namespace CodecRules

def toJson (rules : CodecRules) : Json :=
  Json.record [("max_dynamic_length", .int rules.maxDynamicLength),
    ("strict_bool", .bool rules.strictBool)]

def ofJson? (json : Json) : Option CodecRules := do
  let standard : CodecRules := {}
  match ← Json.slots? ["max_dynamic_length", "strict_bool"] json with
  | [dynamicLength, strict] =>
      return ⟨← dynamicLength.orElse (Json.natural? Numeral.maxWord) standard.maxDynamicLength,
        ← strict.orElse Json.bool? standard.strictBool⟩
  | _ => none

end CodecRules

namespace Settings

def worldToJson (name : String) : Json := Json.record [("namespace", .text name)]

def worldOfJson? (json : Json) : Option String := do
  match ← Json.slots? ["namespace"] json with
  | [name] => name.orElse Json.text? standard.worldNamespace
  | _ => none

def toJson (settings : Settings) : Json :=
  Json.record [("world", worldToJson settings.worldNamespace),
    ("validation", settings.schema.toJson), ("codec", settings.codec.toJson)]

def ofJson? (json : Json) : Option Settings := do
  match ← Json.slots? ["world", "validation", "codec"] json with
  | [world, schema, codec] =>
      return ⟨← world.orElse worldOfJson? standard.worldNamespace,
        ← schema.orElse SchemaRules.ofJson? standard.schema,
        ← codec.orElse CodecRules.ofJson? standard.codec⟩
  | _ => none

end Settings

end PackedTables
