import PackedTables.Settings.Basic
import PackedTables.Toml.Quote

/-!
# Saving settings

The whole settings as a TOML text of three tables.  Numbers that a reader of such text could not take
cannot be saved.
-/

namespace PackedTables

namespace Settings

def writeNumber (value : Nat) : List Char := Numeral.digits value

def writeBool (value : Bool) : List Char := if value then "true".toList else "false".toList

def writeEntry (name : String) (value : List Char) : List Char :=
  name.toList ++ " = ".toList ++ value ++ ['\n']

def writeHeader (name : String) : List Char := '[' :: name.toList ++ [']', '\n']

def worldText (settings : Settings) : List Char :=
  writeHeader "world" ++ writeEntry "namespace" (Toml.quote settings.worldNamespace)

def schemaText (rules : SchemaRules) : List Char :=
  writeHeader "validation" ++
  writeEntry "reserved_names" (Toml.quoteList rules.reservedNames) ++
  writeEntry "identifier_names" (writeBool rules.identifierNames) ++
  writeEntry "max_key_fields" (writeNumber rules.maxKeyFields) ++
  writeEntry "max_value_fields" (writeNumber rules.maxValueFields) ++
  writeEntry "max_dynamic_fields" (writeNumber rules.maxDynamicFields) ++
  writeEntry "max_static_length" (writeNumber rules.maxStaticLength)

def codecText (rules : CodecRules) : List Char :=
  writeHeader "codec" ++
  writeEntry "max_dynamic_length" (writeNumber rules.maxDynamicLength) ++
  writeEntry "strict_bool" (writeBool rules.strictBool)

def text (settings : Settings) : String :=
  String.ofList (worldText settings ++ '\n' :: schemaText settings.schema ++
    '\n' :: codecText settings.codec)

/-- All numbers in settings. -/
def numbers (settings : Settings) : List Nat :=
  [settings.schema.maxKeyFields, settings.schema.maxValueFields, settings.schema.maxDynamicFields,
    settings.schema.maxStaticLength, settings.codec.maxDynamicLength]

/-- No number is greater than a signed one of sixty-four bits. -/
def isSavable (settings : Settings) : Bool :=
  settings.numbers.all fun value => decide (value ≤ Numeral.maxInt)

/-- The saved text; none when a number is too great for it. -/
def save? (settings : Settings) : Option String :=
  if settings.isSavable then some settings.text else none

end Settings

end PackedTables
