import PackedTables.Layout.Basic
import PackedTables.World.TableId

/-!
# Catalogs

The tables of a world in the order in which they came, with an index by name and one by
identifier.  Each index leads to the place of a table in the list.
-/

namespace PackedTables

/-- A table that has been checked and planned. -/
structure Table where
  id : TableId
  schema : Schema
  layout : Layout
  deriving DecidableEq

def Table.name (table : Table) : String := table.schema.name

structure Catalog where
  tables : List Table
  byName : List (String × Nat)
  byId : List (TableId × Nat)
  deriving DecidableEq

namespace Catalog

def empty : Catalog := ⟨[], [], []⟩

def size (catalog : Catalog) : Nat := catalog.tables.length

def isEmpty (catalog : Catalog) : Bool := catalog.tables.isEmpty

def hasName (catalog : Catalog) (name : String) : Bool := (catalog.byName.lookup name).isSome

def hasId (catalog : Catalog) (id : TableId) : Bool := (catalog.byId.lookup id).isSome

def add (catalog : Catalog) (table : Table) : Catalog where
  tables := catalog.tables ++ [table]
  byName := (table.name, catalog.size) :: catalog.byName
  byId := (table.id, catalog.size) :: catalog.byId

def find? (catalog : Catalog) (name : String) : Option Table :=
  (catalog.byName.lookup name).bind fun place => catalog.tables[place]?

def findId? (catalog : Catalog) (id : TableId) : Option Table :=
  (catalog.byId.lookup id).bind fun place => catalog.tables[place]?

end Catalog

end PackedTables
