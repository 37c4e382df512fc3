/-!
# Declarations

What a world is asked to hold: tables with ordered fields and a key list, enumerations and names
for existing types.  Nothing here is checked.
-/

namespace PackedTables

structure FieldDeclaration where
  name : String
  typeName : String
  deriving DecidableEq

structure TableDeclaration where
  name : String
  fields : List FieldDeclaration := []
  key : List String := []
  offchain : Bool := false
  deriving DecidableEq

structure EnumDeclaration where
  name : String
  variants : List String
  deriving DecidableEq

structure WorldDeclaration where
  worldNamespace : Option String := none
  enums : List EnumDeclaration := []
  aliases : List (String × String) := []
  tables : List TableDeclaration := []
  deriving DecidableEq

namespace TableDeclaration

def named (name : String) : TableDeclaration := { name }

def field (table : TableDeclaration) (name typeName : String) : TableDeclaration :=
  { table with fields := table.fields ++ [⟨name, typeName⟩] }

/-- Replace the key list. -/
def keyed (table : TableDeclaration) (key : List String) : TableDeclaration :=
  { table with key }

def onlyOffchain (table : TableDeclaration) (offchain : Bool) : TableDeclaration :=
  { table with offchain }

end TableDeclaration

namespace WorldDeclaration

def empty : WorldDeclaration := {}

def inNamespace (world : WorldDeclaration) (name : String) : WorldDeclaration :=
  { world with worldNamespace := some name }

def enumeration (world : WorldDeclaration) (declaration : EnumDeclaration) : WorldDeclaration :=
  { world with enums := world.enums ++ [declaration] }

def typeAlias (world : WorldDeclaration) (name target : String) : WorldDeclaration :=
  { world with aliases := world.aliases ++ [(name, target)] }

def table (world : WorldDeclaration) (declaration : TableDeclaration) : WorldDeclaration :=
  { world with tables := world.tables ++ [declaration] }

end WorldDeclaration

end PackedTables
