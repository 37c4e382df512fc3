import PackedTables.Proofs.World.Batch

/-!
# Answers of worlds

A world answers with a table exactly for the names and the identifiers of its tables.  These are the
tables of the declarations that were registered, in their order, each checked, planned and identified
by itself.
-/

namespace PackedTables

namespace World

variable {world : World} {table : Table}

/-- What a world answers for names and identifiers. -/
structure Answers (world : World) : Prop where
  consistent : world.catalog.Consistent world.settings.schema world.worldNamespace
  table : ∀ name table,
    world.table name = .ok table ↔ table ∈ world.tables ∧ table.name = name
  findId? : ∀ id table, world.findId? id = some table ↔ table ∈ world.tables ∧ table.id = id

theorem Reachable.answers (reachable : world.Reachable) : world.Answers where
  consistent := by
    obtain ⟨draft, reached, rfl⟩ := reachable
    exact reached.consistent
  table := fun _ _ => table_eq_ok_iff reachable.indexed
  findId? := fun _ _ => findId?_eq_some_iff reachable.indexed

/-- A declaration, and the table that it is in a world. -/
structure Stands (world : World) (declaration : TableDeclaration) (table : Table) : Prop where
  validated : world.settings.schema.validate world.registry declaration = .ok table.schema
  planned : Layout.plan world.settings.schema table.schema = .ok table.layout
  identified : declaration.tableId world.worldNamespace = .ok table.id

theorem Stands.name_eq {declaration : TableDeclaration} (stands : world.Stands declaration table) :
    table.name = declaration.name :=
  (SchemaRules.validate_eq_ok stands.validated).2.2.1

theorem names_of_stands {declarations : List TableDeclaration} {tables : List Table}
    (stand : List.Forall₂ world.Stands declarations tables) :
    tables.map Table.name = declarations.map (·.name) := by
  induction stand with
  | nil => rfl
  | cons here there ih => rw [List.map_cons, List.map_cons, here.name_eq, ih]

/-- A world answers exactly for the names of the declarations that it was made of. -/
theorem Answers.exists_table_iff (answers : world.Answers)
    {declarations : List TableDeclaration}
    (stand : List.Forall₂ world.Stands declarations world.tables) (name : String) :
    (∃ table, world.table name = .ok table) ↔ name ∈ declarations.map (·.name) := by
  rw [← names_of_stands stand, List.mem_map]
  exact exists_congr fun table => answers.table name table

end World

namespace Draft

variable {draft final : Draft} {declarations : List TableDeclaration} {tables : List Table}

theorem stands_of_prepare {declaration : TableDeclaration} {table : Table}
    (prepared : draft.prepare declaration = .ok table) : draft.build.Stands declaration table := by
  obtain ⟨validated, planned, made⟩ := prepare_eq_ok_iff.mp prepared
  obtain ⟨-, -, name, -, offchain⟩ := SchemaRules.validate_eq_ok validated
  rw [name, offchain] at made
  exact ⟨validated, planned, made⟩

/-- What is registered comes behind the tables that were there, one for each declaration. -/
theorem exists_stands_of_registerAll (indexed : draft.catalog.Indexed)
    (accepted : draft.registerAll declarations = .ok final) :
    ∃ tables, final.build.tables = draft.build.tables ++ tables ∧
      List.Forall₂ final.build.Stands declarations tables := by
  obtain ⟨tables, prepared, -, rfl⟩ := (registerAll_eq_ok_iff indexed).mp accepted
  refine ⟨tables, Catalog.tables_addAll draft.catalog tables, ?_⟩
  -- The tables of a world do not matter for what a declaration is in it.
  have same (declaration : TableDeclaration) (table : Table)
      (stands : draft.build.Stands declaration table) :
      World.Stands { draft with catalog := draft.catalog.addAll tables }.build declaration table :=
    ⟨stands.validated, stands.planned, stands.identified⟩
  exact prepared.imp fun declaration table here => same declaration table (stands_of_prepare here)

end Draft

theorem World.stands_ofDeclaration {declaration : WorldDeclaration} {settings : Settings}
    {world : World} (built : ofDeclaration declaration settings = .ok world) :
    List.Forall₂ world.Stands declaration.tables world.tables := by
  obtain ⟨draft, final, -, empty, listed, rfl⟩ := registerAll_of_ofDeclaration built
  obtain ⟨tables, added, stand⟩ :=
    Draft.exists_stands_of_registerAll (empty ▸ Catalog.indexed_empty) listed
  have before : draft.build.tables = [] := congrArg Catalog.tables empty
  rw [added, before, List.nil_append]
  exact stand

/--
The indexes of a draft lead to its tables, whatever was named and registered, one by one or all at
once, and so do those of a world, built from a draft or from a declaration.  So a world answers with
a table exactly for the names and the identifiers of its tables.  What is registered at once comes
behind the tables that were there, and the tables of a declared world are those that it declares.
-/
theorem World.answers_of_built :
    (∀ draft : Draft, draft.Reachable →
        draft.catalog.Consistent draft.settings.schema draft.worldNamespace ∧
          draft.build.Answers ∧
          ∀ declarations final, draft.registerAll declarations = .ok final →
            final.catalog.Consistent final.settings.schema final.worldNamespace ∧
              final.build.Answers ∧
              ∃ tables, final.build.tables = draft.build.tables ++ tables ∧
                List.Forall₂ final.build.Stands declarations tables) ∧
      ∀ declaration settings world, World.ofDeclaration declaration settings = .ok world →
        world.Answers ∧ List.Forall₂ world.Stands declaration.tables world.tables ∧
          ∀ name, (∃ table, world.table name = .ok table) ↔
            name ∈ declaration.tables.map (·.name) := by
  refine ⟨fun draft reachable => ?_, fun declaration settings world built => ?_⟩
  · refine ⟨reachable.consistent, Reachable.answers ⟨draft, reachable, rfl⟩, ?_⟩
    intro declarations final listed
    have reached := reachable.registerAll listed
    exact ⟨reached.consistent, Reachable.answers ⟨final, reached, rfl⟩,
      Draft.exists_stands_of_registerAll reachable.indexed listed⟩
  · have answers := (reachable_ofDeclaration built).answers
    have stand := stands_ofDeclaration built
    exact ⟨answers, stand, answers.exists_table_iff stand⟩

/-- Each twin is found, by its name or by its identifier. -/
theorem World.answers_of_built_twins :
    Twins.draft.build.table "PlayerPositionOneLog" = .ok Twins.offchain ∧
      Twins.draft.build.findId? Twins.onchain.id = some Twins.onchain := by
  obtain ⟨drafts, worlds⟩ := answers_of_built
  obtain ⟨-, -, listed⟩ := drafts Twins.start Twins.reachable_start
  obtain ⟨-, answers, -⟩ := listed _ _ Twins.registerAll_tables
  obtain ⟨declared, -, -⟩ := worlds _ _ _ Twins.ofDeclaration_declaration
  refine ⟨(answers.table _ _).mpr ⟨?_, rfl⟩, (declared.findId? _ _).mpr ⟨?_, rfl⟩⟩
  · decide
  · decide

end PackedTables
