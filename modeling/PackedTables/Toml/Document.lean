import PackedTables.Settings.Tree
import PackedTables.Toml.Moment

/-!
# TOML documents

A document is a list of sections.  The first one is the top, and each other one has a header that
names a table, or a list of tables of which it is the next element.  No name is given a value twice,
and no table is written twice: a header may complete only a table that was implied by longer
headers, and a dotted name may complete only a table that dotted names or longer headers implied.

A document is taken as a setting tree.  Moments become text, and so does a table whose first name
is the one that stands for moments.
-/

namespace PackedTables.Toml

/-- How a table came about: by its own header, by a longer header, or by a dotted name. -/
inductive Origin
  | written
  | implied
  | dotted
  deriving DecidableEq

inductive Node
  | leaf (tree : Tree)
  | moment (text : String)
  | list (items : List Node)
  /-- A table between braces, to which nothing can be added. -/
  | closed (members : List (String × Node))
  | table (origin : Origin) (members : List (String × Node))
  /-- The elements of a list of tables, the last one first. -/
  | tables (elements : List (List (String × Node)))

abbrev Nodes := List (String × Node)

structure Entry where
  path : List String
  value : Node

inductive Header
  | top
  | table (path : List String)
  | element (path : List String)

structure Section where
  header : Header
  entries : List Entry

namespace Nodes

/-- Change what stands under a name, or put something there. -/
def alter (change : Option Node → Option Node) (name : String) : Nodes → Option Nodes
  | [] => (change none).map fun node => [(name, node)]
  | member :: rest =>
      if member.1 = name then (change (some member.2)).map fun node => (name, node) :: rest
      else (alter change name rest).map (member :: ·)

/--
Put a value under a dotted name.  A table is open to the value when the name starts in it, or when it
came about by a dotted name.
-/
def assign (value : Node) : Bool → List String → Nodes → Option Nodes
  | _, [], _ => none
  | isOpen, [name], nodes =>
      if isOpen then
        nodes.alter (fun
          | none => some value
          | some _ => none) name
      else none
  | _, name :: path, nodes =>
      nodes.alter (fun
        | none => (assign value true path []).map (.table .dotted)
        | some (.table .written _) => none
        | some (.table origin members) =>
            (assign value (origin == .dotted) path members).map (.table origin)
        | some (.tables (last :: earlier)) =>
            (assign value false path last).map fun last => .tables (last :: earlier)
        | some _ => none) name

def assignAll (entries : List Entry) (nodes : Nodes) : Option Nodes :=
  entries.foldlM (fun nodes entry => nodes.assign entry.value true entry.path) nodes

/-- Change the table in which the last name of a header stands; the tables on the way may be missing. -/
def within (change : String → Nodes → Option Nodes) : List String → Nodes → Option Nodes
  | [], _ => none
  | [name], nodes => change name nodes
  | name :: path, nodes =>
      nodes.alter (fun
        | none => (within change path []).map (.table .implied)
        | some (.table origin members) => (within change path members).map (.table origin)
        | some (.tables (last :: earlier)) =>
            (within change path last).map fun last => .tables (last :: earlier)
        | some _ => none) name

def node? (name : String) (nodes : Nodes) : Option Node :=
  (List.find? (fun member => member.1 == name) nodes).map (·.2)

/-- The table of a header, last of its neighbours; one that was implied keeps its members. -/
def addTable (entries : List Entry) (name : String) (nodes : Nodes) : Option Nodes :=
  match nodes.node? name with
  | none =>
      (assignAll entries []).map fun members => nodes ++ [(name, .table .written members)]
  | some (.table .implied members) =>
      (assignAll entries members).map fun members =>
        List.filter (·.1 != name) nodes ++ [(name, .table .written members)]
  | some _ => none

/-- The next element of a list of tables. -/
def addElement (entries : List Entry) (name : String) (nodes : Nodes) : Option Nodes :=
  nodes.alter (fun
    | none => (assignAll entries []).map fun element => .tables [element]
    | some (.tables elements) =>
        (assignAll entries []).map fun element => .tables (element :: elements)
    | some _ => none) name

def addSection (nodes : Nodes) (part : Section) : Option Nodes :=
  match part.header with
  | .top => assignAll part.entries nodes
  | .table path => within (addTable part.entries) path nodes
  | .element path => within (addElement part.entries) path nodes

end Nodes

/-- The table that entries between braces make. -/
def closedNode? (entries : List Entry) : Option Node := (Nodes.assignAll entries []).map .closed

/-! ## Trees of documents -/

/-- A table whose first name this is stands for the moment that is written under it. -/
def momentName : String := "$__toml_private_datetime"

/-- A text that is read as a moment. -/
def Node.momentTree? : Node → Option Tree
  | .leaf (.text text) =>
      (Moment.ofChars? text.toList).map fun chars => .text (String.ofList chars)
  | _ => none

mutual

def Node.tree? : Node → Option Tree
  | .leaf tree => some tree
  | .moment text => some (.text text)
  | .list items => (itemTrees? items).map .list
  | .closed members => tableTree? members
  | .table _ members => tableTree? members
  | .tables elements => (elementTrees? elements).map fun trees => .list trees.reverse

/-- What stands after the name of moments is not looked at. -/
def tableTree? : List (String × Node) → Option Tree
  | [] => some (.table [])
  | (name, node) :: rest =>
      if name = momentName then node.momentTree?
      else do
        let tree ← node.tree?
        let rest ← memberTrees? rest
        return .table ((name, tree) :: rest)

def memberTrees? : List (String × Node) → Option (List (String × Tree))
  | [] => some []
  | (name, node) :: rest => do
      let tree ← node.tree?
      let rest ← memberTrees? rest
      return (name, tree) :: rest

def itemTrees? : List Node → Option (List Tree)
  | [] => some []
  | node :: rest => do
      let tree ← node.tree?
      let rest ← itemTrees? rest
      return tree :: rest

def elementTrees? : List (List (String × Node)) → Option (List Tree)
  | [] => some []
  | members :: rest => do
      let tree ← tableTree? members
      let rest ← elementTrees? rest
      return tree :: rest

end

/-- The members of a document, when no two of its sections are at odds; a moment has none. -/
def documentMembers? (sections : List Section) : Option Tree.Members := do
  let nodes ← sections.foldlM Nodes.addSection []
  match ← tableTree? nodes with
  | .table members => return members
  | _ => none

end PackedTables.Toml
