import PackedTables.Layout.Plan
import PackedTables.Schema.Check
import PackedTables.World.Catalog

/-!
# Drafts of worlds

A draft takes tables one at a time, under settings and a namespace that hold for all of them.  The
namespace is settled with the first table.  A table is checked, planned and identified; a name or an
identifier that is taken refuses it.
-/

namespace PackedTables

structure Draft where
  registry : Registry
  settings : Settings
  worldNamespace : String
  catalog : Catalog
  deriving DecidableEq

namespace Draft

def empty (registry : Registry) (settings : Settings) (worldNamespace : String) : Draft :=
  ⟨registry, settings, worldNamespace, .empty⟩

/-- A draft under the standard settings, in the empty namespace. -/
def new (registry : Registry) : Draft := empty registry .standard ""

def inNamespace (draft : Draft) (name : String) : Except Fault Draft :=
  if !draft.catalog.isEmpty && name != draft.worldNamespace then
    .error (.invalidName name .namespaceSettled)
  else do
    draft.settings.schema.checkNamespace name
    let _ ← TableId.make name "" false
    return { draft with worldNamespace := name }

/-- A draft under settings that the stored form can honour, in the namespace that they name. -/
def withSettings (registry : Registry) (settings : Settings) : Except Fault Draft := do
  let settings ← settings.check
  (empty registry settings "").inNamespace settings.worldNamespace

/-- A declaration checked, planned and identified. -/
def prepare (draft : Draft) (declaration : TableDeclaration) : Except Fault Table := do
  let schema ← draft.settings.schema.validate draft.registry declaration
  let layout ← Layout.plan draft.settings.schema schema
  let id ← TableId.make draft.worldNamespace schema.name schema.offchain
  return ⟨id, schema, layout⟩

def register (draft : Draft) (declaration : TableDeclaration) : Except Fault Draft :=
  if draft.catalog.hasName declaration.name then .error (.duplicateTable declaration.name)
  else
    match draft.prepare declaration with
    | .error fault => .error fault
    | .ok table =>
        if draft.catalog.hasId table.id then .error (.duplicateTable declaration.name)
        else .ok { draft with catalog := draft.catalog.add table }

/-- All declarations in turn, or none of them. -/
def registerAll (draft : Draft) (declarations : List TableDeclaration) : Except Fault Draft :=
  declarations.foldlM register draft

end Draft

end PackedTables
