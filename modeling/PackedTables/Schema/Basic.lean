import PackedTables.Types.Kind

/-!
# Schemas

A table whose types are resolved: fields in their declared order, and the names of those that make
up the key.  All other fields are values.
-/

namespace PackedTables

structure Field where
  name : String
  type : FieldType
  deriving DecidableEq

def Field.width? (field : Field) : Option Nat := field.type.width.fixed?

structure Schema where
  name : String
  fields : List Field
  key : List String
  offchain : Bool
  deriving DecidableEq

namespace Schema

def field? (schema : Schema) (name : String) : Option Field :=
  schema.fields.find? fun field => field.name == name

def isKey (schema : Schema) (name : String) : Bool := schema.key.contains name

def isSingleton (schema : Schema) : Bool := schema.key.isEmpty

def valueFields (schema : Schema) : List Field :=
  schema.fields.filter fun field => !schema.isKey field.name

end Schema

end PackedTables
