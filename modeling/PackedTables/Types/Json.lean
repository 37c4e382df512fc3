import PackedTables.Json.Shape
import PackedTables.Types.Kind

/-!
# Types as JSON

A kind is an object with its tag beside its fields, or an array of its tag and its fields.  The kind
of array elements may also give the place of its tag in the list of tags.
-/

namespace PackedTables

namespace Width

def toJson : Width → Json
  | fixed bytes => Json.record [("fixed", .int bytes)]
  | varying => .text "variable"

def ofJson? : Json → Option Width
  | .text "variable" => some varying
  | .object [(some "variable", .null)] => some varying
  | .object [(some "fixed", bytes)] => (Json.natural? Numeral.maxWord bytes).map fixed
  | _ => none

end Width

namespace Kind

def tagged (tag : String) (fields : List (String × Json)) : Json :=
  Json.record (("kind", .text tag) :: fields)

def toJson : Kind → Json
  | bool => tagged "bool" []
  | uint bits => tagged "uint" [("bits", .int bits)]
  | int bits => tagged "int" [("bits", .int bits)]
  | fixedBytes length => tagged "fixed_bytes" [("len", .int length)]
  | address => tagged "address" []
  | enumeration name variants => tagged "enum" [("name", .text name), ("variants", .int variants)]
  | bytes => tagged "bytes" []
  | string => tagged "string" []
  | array element length =>
      tagged "array" [("element", toJson element), ("len", Json.orNull (fun count => .int count) length)]

/-- The tags, in the order in which numbers stand for them. -/
def tags : List String :=
  ["bool", "uint", "int", "fixed_bytes", "address", "enum", "bytes", "string", "array"]

def readTag? (numbered : Bool) : Json → Option String
  | .text tag => some tag
  | .int place => if numbered ∧ 0 ≤ place then tags[place.toNat]? else none
  | _ => none

/-- The tag, and what is left of the object or array without it. -/
def splitTag? : Json → Option (Json × Json)
  | .array (tag :: fields) => some (tag, .array fields)
  | .object members =>
      match members.partition fun member => member.1 == some "kind" with
      | ([tag], fields) => some (tag.2, .object fields)
      | _ => none
  | _ => none

/-- A kind without fields; what else an object says is ignored. -/
def readPlain? (kind : Kind) : Json → Option Kind
  | .object _ => some kind
  | .array [] => some kind
  | _ => none

def readSized? (ofSize : Nat → Kind) (name : String) (greatest : Nat) (fields : Json) :
    Option Kind := do
  match ← Json.slots? [name] fields with
  | [size] => return ofSize (← size.required (Json.natural? greatest))
  | _ => none

def readEnumeration? (fields : Json) : Option Kind := do
  match ← Json.slots? ["name", "variants"] fields with
  | [name, variants] =>
      return enumeration (← name.required Json.text?)
        (← variants.required (Json.natural? Numeral.maxWord))
  | _ => none

def readArray? (readElement? : Json → Option Kind) (fields : Json) : Option Kind := do
  match ← Json.slots? ["element", "len"] fields with
  | [element, length] =>
      return array (← element.required readElement?)
        (← length.nullable (Json.natural? Numeral.maxWord))
  | _ => none

/-- The greatest count of bits that can be asked for. -/
def maxBits : Nat := 0xFFFF

def readFields? (readElement? : Json → Option Kind) (tag : String) (fields : Json) : Option Kind :=
  match tag with
  | "bool" => readPlain? bool fields
  | "uint" => readSized? uint "bits" maxBits fields
  | "int" => readSized? int "bits" maxBits fields
  | "fixed_bytes" => readSized? fixedBytes "len" Numeral.maxWord fields
  | "address" => readPlain? address fields
  | "enum" => readEnumeration? fields
  | "bytes" => readPlain? bytes fields
  | "string" => readPlain? string fields
  | "array" => readArray? readElement? fields
  | _ => none

/-- A kind at most `room` values deep. -/
def readWithin? : Nat → Bool → Json → Option Kind
  | 0, _, _ => none
  | room + 1, numbered, json => do
      let (tag, fields) ← splitTag? json
      readFields? (readWithin? room true) (← readTag? numbered tag) fields

/-- A kind in a sound value at most `room` values deep. -/
def ofJson? (room : Nat) (json : Json) : Option Kind :=
  if json.isSound room then readWithin? room false json else none

/-- How deeply a kind may be nested. -/
def maxDepth : Nat := 127

end Kind

namespace FieldType

def toJson (type : FieldType) : Json :=
  Json.record [("name", .text type.name), ("kind", type.kind.toJson), ("width", type.width.toJson),
    ("default_value", .array (type.standard.map fun byte => .int byte.toNat)),
    ("type_id", .int type.typeId.toNat)]

def readByte? (json : Json) : Option UInt8 := (Json.natural? 255 json).map UInt8.ofNat

def ofJson? (json : Json) : Option FieldType := do
  match ← Json.slots? ["name", "kind", "width", "default_value", "type_id"] json with
  | [name, kind, width, standard, typeId] =>
      return ⟨← name.required Json.text?, ← kind.required (Kind.ofJson? (Kind.maxDepth - 1)),
        ← width.required Width.ofJson?, ← standard.required (Json.list? readByte?),
        ← typeId.required readByte?⟩
  | _ => none

end FieldType

end PackedTables
