import PackedTables.Proofs.World.Draft

/-!
# Indexes of a catalog

An index leads from the key of each table to its place, and from no other key.  A draft adds a table
only under a fresh name and a fresh identifier, so both indexes of a world lead where they should.
-/

namespace PackedTables

/-- An index that leads from the key of each item to its place, and from no other key. -/
def Indexes {κ α : Type} [BEq κ] (keyOf : α → κ) (items : List α) (index : List (κ × Nat)) : Prop :=
  ∀ key place, index.lookup key = some place ↔
    ∃ item, items[place]? = some item ∧ keyOf item = key

namespace Indexes

variable {κ α : Type} [BEq κ] {keyOf : α → κ} {items : List α} {index : List (κ × Nat)}

theorem nil : Indexes keyOf [] [] := fun key place => by simp

theorem lookup_eq_none_iff (indexes : Indexes keyOf items index) {key : κ} :
    index.lookup key = none ↔ ∀ item ∈ items, keyOf item ≠ key := by
  rw [Option.eq_none_iff_forall_ne_some]
  constructor
  · intro absent item member same
    obtain ⟨place, here⟩ := List.mem_iff_getElem?.mp member
    exact absent place ((indexes key place).mpr ⟨item, here, same⟩)
  · intro strange place found
    obtain ⟨item, here, same⟩ := (indexes key place).mp found
    exact strange item (List.mem_of_getElem? here) same

/-- A key leads to one place, so no two items share it. -/
theorem nodup (indexes : Indexes keyOf items index) : (items.map keyOf).Nodup := by
  rw [List.nodup_iff_getElem?_ne_getElem?]
  intro first second before inside same
  rw [List.length_map] at inside
  rw [List.getElem?_map, List.getElem?_map, List.getElem?_eq_getElem inside,
    List.getElem?_eq_getElem (Nat.lt_trans before inside)] at same
  have here := (indexes (keyOf items[first]) first).mpr ⟨_, List.getElem?_eq_getElem _, rfl⟩
  have there := (indexes (keyOf items[second]) second).mpr ⟨_, List.getElem?_eq_getElem _, rfl⟩
  rw [Option.some.inj same, there] at here
  exact Nat.ne_of_gt before (Option.some.inj here)

theorem find_eq_some_iff (indexes : Indexes keyOf items index) {key : κ} {item : α} :
    ((index.lookup key).bind fun place => items[place]?) = some item ↔
      item ∈ items ∧ keyOf item = key := by
  rw [Option.bind_eq_some_iff]
  constructor
  · rintro ⟨place, found, here⟩
    obtain ⟨other, there, same⟩ := (indexes key place).mp found
    obtain rfl := Option.some.inj (here.symm.trans there)
    exact ⟨List.mem_of_getElem? here, same⟩
  · rintro ⟨member, same⟩
    obtain ⟨place, here⟩ := List.mem_iff_getElem?.mp member
    exact ⟨place, (indexes key place).mpr ⟨item, here, same⟩, here⟩

theorem getElem?_concat_eq_some_iff {item other : α} {place : Nat} :
    (items ++ [item])[place]? = some other ↔
      items[place]? = some other ∨ place = items.length ∧ item = other := by
  rcases Nat.lt_trichotomy place items.length with old | last | beyond
  · rw [List.getElem?_append_left old]
    simp [Nat.ne_of_lt old]
  · subst last
    simp
  · rw [List.getElem?_eq_none (by rw [List.length_append]; exact beyond),
      List.getElem?_eq_none (Nat.le_of_lt beyond)]
    simp [Nat.ne_of_gt beyond]

theorem push [LawfulBEq κ] (indexes : Indexes keyOf items index) {item : α}
    (fresh : index.lookup (keyOf item) = none) :
    Indexes keyOf (items ++ [item]) ((keyOf item, items.length) :: index) := by
  intro key place
  simp only [getElem?_concat_eq_some_iff, or_and_right, exists_or, ← indexes key place,
    List.lookup_cons]
  -- The fresh key led nowhere before, so the last place alone answers for it.
  by_cases same : key = keyOf item
  · subst same
    simp [fresh, eq_comm]
  · simp [beq_eq_false_iff_ne.mpr same, Ne.symm same]

end Indexes

namespace Catalog

structure Indexed (catalog : Catalog) : Prop where
  byName : Indexes Table.name catalog.tables catalog.byName
  byId : Indexes Table.id catalog.tables catalog.byId

theorem indexed_empty : empty.Indexed := ⟨.nil, .nil⟩

namespace Indexed

variable {catalog : Catalog} {table : Table}

theorem hasName_eq_false_iff (indexed : catalog.Indexed) {name : String} :
    catalog.hasName name = false ↔ ∀ table ∈ catalog.tables, table.name ≠ name := by
  rw [hasName, Option.isSome_eq_false_iff, Option.isNone_iff_eq_none,
    indexed.byName.lookup_eq_none_iff]

theorem hasId_eq_false_iff (indexed : catalog.Indexed) {id : TableId} :
    catalog.hasId id = false ↔ ∀ table ∈ catalog.tables, table.id ≠ id := by
  rw [hasId, Option.isSome_eq_false_iff, Option.isNone_iff_eq_none,
    indexed.byId.lookup_eq_none_iff]

theorem add (indexed : catalog.Indexed) (name : catalog.hasName table.name = false)
    (id : catalog.hasId table.id = false) : (catalog.add table).Indexed := by
  refine ⟨indexed.byName.push ?_, indexed.byId.push ?_⟩
  · exact indexed.byName.lookup_eq_none_iff.mpr (indexed.hasName_eq_false_iff.mp name)
  · exact indexed.byId.lookup_eq_none_iff.mpr (indexed.hasId_eq_false_iff.mp id)

end Indexed

end Catalog

/-! ## Drafts -/

namespace Draft

variable {draft next : Draft} {table : Table} {declaration : TableDeclaration}

theorem name_of_prepare (prepared : draft.prepare declaration = .ok table) :
    table.name = declaration.name := by
  obtain ⟨validated, -, -⟩ := prepare_eq_ok_iff.mp prepared
  exact (SchemaRules.validate_eq_ok validated).2.2.1

theorem indexed_of_register (indexed : draft.catalog.Indexed)
    (accepted : draft.register declaration = .ok next) : next.catalog.Indexed := by
  obtain ⟨fresh, table, prepared, free, rfl⟩ := register_eq_ok_iff.mp accepted
  exact indexed.add (name_of_prepare prepared ▸ fresh) free

theorem indexed_of_registerAll (indexed : draft.catalog.Indexed)
    {declarations : List TableDeclaration} (accepted : draft.registerAll declarations = .ok next) :
    next.catalog.Indexed :=
  Outcome.foldlM_keeps (motive := fun next => next.catalog.Indexed)
    (fun _ _ _ before step => indexed_of_register before step) indexed accepted

theorem indexed_of_inNamespace (indexed : draft.catalog.Indexed) {name : String}
    (accepted : draft.inNamespace name = .ok next) : next.catalog.Indexed := by
  obtain ⟨-, -, -, rfl⟩ := inNamespace_eq_ok accepted
  exact indexed

theorem Reachable.indexed (reachable : draft.Reachable) : draft.catalog.Indexed := by
  induction reachable with
  | new registry => exact Catalog.indexed_empty
  | withSettings registry accepted =>
      obtain ⟨settings, -, named⟩ := Outcome.bind_eq_ok.mp accepted
      exact indexed_of_inNamespace Catalog.indexed_empty named
  | inNamespace before accepted ih => exact indexed_of_inNamespace ih accepted
  | register before accepted ih => exact indexed_of_register ih accepted

end Draft

/-! ## Worlds -/

/--
A catalog under some rules and in some namespace: each table is found under its own name and its own
identifier, at its own place, and was identified and planned as it would be now.
-/
structure Catalog.Consistent (rules : SchemaRules) (worldNamespace : String) (catalog : Catalog) :
    Prop where
  names : (catalog.tables.map Table.name).Nodup
  ids : (catalog.tables.map Table.id).Nodup
  byName : ∀ name place, catalog.byName.lookup name = some place ↔
    ∃ table, catalog.tables[place]? = some table ∧ table.name = name
  byId : ∀ id place, catalog.byId.lookup id = some place ↔
    ∃ table, catalog.tables[place]? = some table ∧ table.id = id
  identified : ∀ table ∈ catalog.tables,
    TableId.make worldNamespace table.name table.schema.offchain = .ok table.id
  planned : ∀ table ∈ catalog.tables, Layout.plan rules table.schema = .ok table.layout

theorem Draft.Reachable.consistent {draft : Draft} (reachable : draft.Reachable) :
    draft.catalog.Consistent draft.settings.schema draft.worldNamespace := by
  have indexed := reachable.indexed
  have prepared : ∀ table ∈ draft.catalog.tables,
      TableId.make draft.worldNamespace table.name table.schema.offchain = .ok table.id ∧
        Layout.plan draft.settings.schema table.schema = .ok table.layout := by
    intro table member
    obtain ⟨declaration, prepared⟩ := reachable.sound.tables table member
    obtain ⟨-, planned, made⟩ := prepare_eq_ok_iff.mp prepared
    exact ⟨made, planned⟩
  exact {
    names := indexed.byName.nodup
    ids := indexed.byId.nodup
    byName := indexed.byName
    byId := indexed.byId
    identified := fun table member => (prepared table member).1
    planned := fun table member => (prepared table member).2 }

namespace World

variable {world : World} {table : Table}

theorem table_eq_ok_iff (indexed : world.catalog.Indexed) {name : String} :
    world.table name = .ok table ↔ table ∈ world.tables ∧ table.name = name := by
  rw [tables, ← indexed.byName.find_eq_some_iff]
  change _ ↔ world.catalog.find? name = some table
  unfold World.table
  cases world.catalog.find? name <;> simp

theorem findId?_eq_some_iff (indexed : world.catalog.Indexed) {id : TableId} :
    world.findId? id = some table ↔ table ∈ world.tables ∧ table.id = id :=
  indexed.byId.find_eq_some_iff

theorem Reachable.indexed (reachable : world.Reachable) : world.catalog.Indexed := by
  obtain ⟨draft, reached, rfl⟩ := reachable
  exact reached.indexed

end World

/-! ## A world of twins -/

namespace Twins

/-- Two tables whose names are cut to the same bytes; only one of them is kept offchain. -/
def declaration : WorldDeclaration where
  worldNamespace := some "game"
  tables := [
    { name := "PlayerPositionOne", fields := [⟨"x", "uint8"⟩] },
    { name := "PlayerPositionOneLog", fields := [⟨"x", "string"⟩], offchain := true }]

def onchain : Table where
  id := ⟨TableId.wordOf (Utf8.encode "game") (Utf8.encode "PlayerPositionOne") false⟩
  schema := ⟨"PlayerPositionOne", [⟨"x", .ofKind "uint8" (.uint 8)⟩], [], false⟩
  layout := ⟨"PlayerPositionOne", [], [⟨⟨"x", .ofKind "uint8" (.uint 8)⟩, 0, 0, 1⟩], [], 0, 1⟩

def offchain : Table where
  id := ⟨TableId.wordOf (Utf8.encode "game") (Utf8.encode "PlayerPositionOne") true⟩
  schema := ⟨"PlayerPositionOneLog", [⟨"x", .ofKind "string" .string⟩], [], true⟩
  layout := ⟨"PlayerPositionOneLog", [], [], [⟨⟨"x", .ofKind "string" .string⟩, 0, 0⟩], 0, 0⟩

def start : Draft := .empty .standard .standard "game"

def draft : Draft := { start with catalog := (Catalog.empty.add onchain).add offchain }

theorem reachable_start : start.Reachable := by
  have named : (Draft.new .standard).inNamespace "game" = .ok start := rfl
  exact .inNamespace (.new .standard) named

theorem registerAll_tables : start.registerAll declaration.tables = .ok draft := by
  decide +kernel

theorem ofDeclaration_declaration :
    World.ofDeclaration declaration .standard = .ok draft.build := by
  decide +kernel

end Twins

end PackedTables
