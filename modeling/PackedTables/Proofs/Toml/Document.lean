import PackedTables.Proofs.Settings.Overlay
import PackedTables.Toml.Document

/-!
# Documents of plain tables

A document whose sections have names of their own, and entries with names of their own that hold no
tables, is the tree of its tables.
-/

namespace PackedTables.Toml

/-- How a tree that is no table and holds none is written. -/
def Node.ofTree : Tree → Node
  | .list items => .list (items.map .leaf)
  | tree => .leaf tree

theorem itemTrees?_map (items : List Tree) : itemTrees? (items.map .leaf) = some items := by
  induction items with
  | nil => rw [List.map_nil, itemTrees?]
  | cons tree rest ih =>
      rw [List.map_cons, itemTrees?, Node.tree?, ih]
      rfl

theorem Node.tree?_ofTree (tree : Tree) : (Node.ofTree tree).tree? = some tree := by
  cases tree with
  | list items => rw [ofTree, tree?, itemTrees?_map, Option.map_some]
  | _ => rw [ofTree, tree?]; simp

namespace Nodes

variable {name : String} {nodes : Nodes} {entries : List Entry}

theorem alter_of_absent {change : Option Node → Option Node}
    (absent : name ∉ List.map (·.1) nodes) :
    nodes.alter change name = (change none).map fun node => nodes ++ [(name, node)] := by
  induction nodes with
  | nil => rfl
  | cons member rest ih =>
      rw [List.map_cons, List.mem_cons, not_or] at absent
      rw [alter, if_neg (Ne.symm absent.1), ih absent.2, Option.map_map]
      rfl

theorem node?_of_absent (absent : name ∉ List.map (·.1) nodes) : nodes.node? name = none := by
  rw [node?, Option.map_eq_none_iff, List.find?_eq_none]
  intro member listed same
  exact absent (beq_iff_eq.mp same ▸ List.mem_map_of_mem listed)

end Nodes

/-- A name and what is written under it. -/
def entryOf (member : String × Tree) : Entry := ⟨[member.1], Node.ofTree member.2⟩

def nodeOf (member : String × Tree) : String × Node := (member.1, Node.ofTree member.2)

/-- The section of a table. -/
def sectionOf (part : String × Tree.Members) : Section := ⟨.table [part.1], part.2.map entryOf⟩

def tableOf (part : String × Tree.Members) : String × Tree := (part.1, .table part.2)

/-- What a section adds to the document. -/
def tableNodeOf (part : String × Tree.Members) : String × Node :=
  (part.1, .table .written (part.2.map nodeOf))

variable {nodes : Nodes} {members : Tree.Members} {parts : List (String × Tree.Members)}

theorem assignAll_entryOf (distinct : (List.map (·.1) nodes ++ members.map (·.1)).Nodup) :
    Nodes.assignAll (members.map entryOf) nodes = some (nodes ++ members.map nodeOf) := by
  induction members generalizing nodes with
  | nil =>
      rw [List.map_nil, List.map_nil, List.append_nil]
      rfl
  | cons member rest ih =>
      rw [List.map_cons] at distinct
      obtain ⟨absent, later⟩ := Tree.fresh_of_nodup (nodeOf member) distinct
      have assigned : nodes.assign (Node.ofTree member.2) true [member.1] =
          some (nodes ++ [nodeOf member]) := Nodes.alter_of_absent absent
      rw [List.map_cons, Nodes.assignAll, List.foldlM_cons, entryOf, assigned]
      change Nodes.assignAll (rest.map entryOf) (nodes ++ [nodeOf member]) = _
      rw [ih later, List.map_cons, List.append_assoc]
      rfl

theorem addSection_sectionOf {part : String × Tree.Members} (absent : part.1 ∉ List.map (·.1) nodes)
    (distinct : (part.2.map (·.1)).Nodup) :
    nodes.addSection (sectionOf part) = some (nodes ++ [tableNodeOf part]) := by
  have assigned : Nodes.assignAll (part.2.map entryOf) [] = some ([] ++ part.2.map nodeOf) :=
    assignAll_entryOf distinct
  change nodes.addTable (part.2.map entryOf) part.1 = _
  rw [Nodes.addTable, Nodes.node?_of_absent absent]
  change (Nodes.assignAll _ _).map _ = _
  rw [assigned]
  rfl

theorem foldlM_addSection (distinct : (List.map (·.1) nodes ++ parts.map (·.1)).Nodup)
    (each : ∀ part ∈ parts, (part.2.map (·.1)).Nodup) :
    (parts.map sectionOf).foldlM Nodes.addSection nodes =
      some (nodes ++ parts.map tableNodeOf) := by
  induction parts generalizing nodes with
  | nil =>
      rw [List.map_nil, List.map_nil, List.append_nil]
      rfl
  | cons part rest ih =>
      obtain ⟨here, there⟩ := List.forall_mem_cons.mp each
      rw [List.map_cons] at distinct
      obtain ⟨absent, later⟩ := Tree.fresh_of_nodup (tableNodeOf part) distinct
      rw [List.map_cons, List.foldlM_cons, addSection_sectionOf absent here]
      change (rest.map sectionOf).foldlM Nodes.addSection (nodes ++ [tableNodeOf part]) = _
      rw [ih later there, List.map_cons, List.append_assoc]
      rfl

theorem memberTrees?_nodeOf (members : Tree.Members) :
    memberTrees? (members.map nodeOf) = some members := by
  induction members with
  | nil => rw [List.map_nil, memberTrees?]
  | cons member rest ih =>
      rw [List.map_cons, nodeOf, memberTrees?, Node.tree?_ofTree, ih]
      rfl

theorem tableTree?_nodeOf (moments : momentName ∉ members.map (·.1)) :
    tableTree? (members.map nodeOf) = some (.table members) := by
  cases members with
  | nil => rw [List.map_nil, tableTree?]
  | cons member rest =>
      rw [List.map_cons, List.mem_cons, not_or] at moments
      rw [List.map_cons, nodeOf, tableTree?, if_neg (Ne.symm moments.1), Node.tree?_ofTree,
        memberTrees?_nodeOf]
      rfl

theorem memberTrees?_tableNodeOf
    (moments : ∀ part ∈ parts, momentName ∉ part.2.map (·.1)) :
    memberTrees? (parts.map tableNodeOf) = some (parts.map tableOf) := by
  induction parts with
  | nil => rw [List.map_nil, List.map_nil, memberTrees?]
  | cons part rest ih =>
      obtain ⟨here, there⟩ := List.forall_mem_cons.mp moments
      rw [List.map_cons, tableNodeOf, memberTrees?, Node.tree?, tableTree?_nodeOf here, ih there]
      rfl

/-- A document of tables with names of their own is the tree of these tables. -/
theorem documentMembers?_sectionOf (distinct : (parts.map (·.1)).Nodup)
    (each : ∀ part ∈ parts, (part.2.map (·.1)).Nodup)
    (moments : ∀ part ∈ parts, part.1 ≠ momentName ∧ momentName ∉ part.2.map (·.1)) :
    documentMembers? (parts.map sectionOf) = some (parts.map tableOf) := by
  have added : (parts.map sectionOf).foldlM Nodes.addSection [] =
      some ([] ++ parts.map tableNodeOf) := foldlM_addSection distinct each
  have whole : tableTree? (parts.map tableNodeOf) = some (.table (parts.map tableOf)) := by
    cases parts with
    | nil => rw [List.map_nil, List.map_nil, tableTree?]
    | cons part rest =>
        obtain ⟨⟨other, here⟩, there⟩ := List.forall_mem_cons.mp moments
        rw [List.map_cons, tableNodeOf, tableTree?, if_neg other, Node.tree?,
          tableTree?_nodeOf here, memberTrees?_tableNodeOf fun part listed => (there part listed).2]
        rfl
  rw [List.nil_append] at added
  rw [documentMembers?, added, Option.bind_eq_bind, Option.bind_some, whole]
  rfl

end PackedTables.Toml
