import Mathlib.Data.List.Forall2
import Mathlib.Data.List.Perm.Basic
import PackedTables.Proofs.World.Catalog
import PackedTables.World.Manifest

/-!
# Batches

A batch is registered when each of its declarations can be prepared and no two tables share a name
or an identifier.  Preparing does not look at tables that came before, so the order of a batch tells
nothing but the order of its tables.
-/

namespace PackedTables

/-- The identifier that a declaration asks for. -/
def TableDeclaration.tableId (worldNamespace : String) (declaration : TableDeclaration) :
    Except Fault TableId :=
  TableId.make worldNamespace declaration.name declaration.offchain

/-- Tables of different names and different identifiers. -/
structure Table.Apart (tables : List Table) : Prop where
  names : (tables.map Table.name).Nodup
  ids : (tables.map Table.id).Nodup

namespace Catalog

def addAll (catalog : Catalog) (tables : List Table) : Catalog := tables.foldl add catalog

theorem tables_addAll (catalog : Catalog) (tables : List Table) :
    (catalog.addAll tables).tables = catalog.tables ++ tables := by
  induction tables generalizing catalog with
  | nil => exact (List.append_nil _).symm
  | cons table rest ih =>
      change ((catalog.add table).addAll rest).tables = _
      rw [ih, add, List.append_assoc]
      rfl

theorem Indexed.apart {catalog : Catalog} (indexed : catalog.Indexed) :
    Table.Apart catalog.tables :=
  ⟨indexed.byName.nodup, indexed.byId.nodup⟩

/-- A table that stays apart from those that are there is free to be added. -/
theorem Indexed.free_of_apart {catalog : Catalog} (indexed : catalog.Indexed) {table : Table}
    {rest : List Table} (apart : Table.Apart (catalog.tables ++ table :: rest)) :
    catalog.hasName table.name = false ∧ catalog.hasId table.id = false := by
  obtain ⟨names, ids⟩ := apart
  rw [List.map_append, List.map_cons, List.nodup_middle, List.nodup_cons] at names ids
  constructor
  · refine indexed.hasName_eq_false_iff.mpr fun other member same => names.1 ?_
    exact List.mem_append_left _ (same ▸ List.mem_map_of_mem member)
  · refine indexed.hasId_eq_false_iff.mpr fun other member same => ids.1 ?_
    exact List.mem_append_left _ (same ▸ List.mem_map_of_mem member)

end Catalog

namespace Draft

variable {draft final : Draft} {declarations others : List TableDeclaration} {tables : List Table}

/-- A batch prepared, each declaration by itself. -/
def Prepares (draft : Draft) (declarations : List TableDeclaration) (tables : List Table) : Prop :=
  List.Forall₂ (fun declaration table => draft.prepare declaration = .ok table) declarations tables

/-- A batch comes down to tables that are prepared one by one and stay apart. -/
theorem registerAll_eq_ok_iff (indexed : draft.catalog.Indexed) :
    draft.registerAll declarations = .ok final ↔
      ∃ tables, draft.Prepares declarations tables ∧
        Table.Apart (draft.catalog.tables ++ tables) ∧
        final = { draft with catalog := draft.catalog.addAll tables } := by
  -- The draft grows along the batch, but preparing reads only what all these drafts share.
  induction declarations generalizing draft with
  | nil =>
      constructor
      · intro run
        obtain rfl := Outcome.pure_eq_ok.mp run
        exact ⟨[], .nil, by rw [List.append_nil]; exact indexed.apart, rfl⟩
      · rintro ⟨tables, prepared, -, rfl⟩
        obtain rfl := List.forall₂_nil_left_iff.mp prepared
        rfl
  | cons declaration rest ih =>
      have run : draft.registerAll (declaration :: rest) =
          draft.register declaration >>= fun next => next.registerAll rest :=
        List.foldlM_cons
      rw [run, Outcome.bind_eq_ok]
      constructor
      · rintro ⟨next, here, there⟩
        have indexed' := indexed_of_register indexed here
        obtain ⟨-, table, prepared, -, rfl⟩ := register_eq_ok_iff.mp here
        obtain ⟨tables, others, apart, rfl⟩ := (ih indexed').mp there
        refine ⟨table :: tables, .cons prepared others, ?_, rfl⟩
        rwa [Catalog.add, List.append_assoc] at apart
      · rintro ⟨tables, prepared, apart, rfl⟩
        obtain ⟨table, tables, here, there, rfl⟩ := List.forall₂_cons_left_iff.mp prepared
        obtain ⟨name, id⟩ := indexed.free_of_apart apart
        have step := register_eq_ok_iff.mpr ⟨name_of_prepare here ▸ name, table, here, id, rfl⟩
        refine ⟨_, step, (ih (indexed_of_register indexed step)).mpr ⟨tables, there, ?_, rfl⟩⟩
        rwa [Catalog.add, List.append_assoc]

/-! ## Batches on an empty draft -/

theorem register_eq_ok_iff_of_empty (empty : draft.catalog = .empty)
    {declaration : TableDeclaration} {alone : Draft} :
    draft.register declaration = .ok alone ↔ ∃ table, draft.prepare declaration = .ok table ∧
      alone = { draft with catalog := Catalog.empty.add table } := by
  rw [register_eq_ok_iff, empty]
  exact ⟨fun ⟨_, table, prepared, _, same⟩ => ⟨table, prepared, same⟩,
    fun ⟨table, prepared, same⟩ => ⟨rfl, table, prepared, rfl, same⟩⟩

theorem registerAll_eq_ok_iff_of_empty (empty : draft.catalog = .empty) :
    draft.registerAll declarations = .ok final ↔
      ∃ tables, draft.Prepares declarations tables ∧ Table.Apart tables ∧
        final = { draft with catalog := Catalog.empty.addAll tables } := by
  have indexed : draft.catalog.Indexed := empty ▸ Catalog.indexed_empty
  rw [registerAll_eq_ok_iff indexed, empty]
  rfl

namespace Prepares

theorem names_eq (prepared : draft.Prepares declarations tables) :
    tables.map Table.name = declarations.map (·.name) := by
  induction prepared with
  | nil => rfl
  | cons here there ih => rw [List.map_cons, List.map_cons, name_of_prepare here, ih]

theorem ids_eq (prepared : draft.Prepares declarations tables) :
    tables.map (fun table => Except.ok table.id) =
      declarations.map (·.tableId draft.worldNamespace) := by
  induction prepared with
  | nil => rfl
  | cons here there ih =>
      obtain ⟨validated, -, made⟩ := prepare_eq_ok_iff.mp here
      obtain ⟨-, -, name, -, offchain⟩ := SchemaRules.validate_eq_ok validated
      rw [List.map_cons, List.map_cons, ih, ← made, name, offchain]
      rfl

theorem apart_iff (prepared : draft.Prepares declarations tables) :
    Table.Apart tables ↔ (declarations.map (·.name)).Nodup ∧
      (declarations.map (·.tableId draft.worldNamespace)).Nodup := by
  have injective : Function.Injective (Except.ok : TableId → Except Fault TableId) :=
    fun _ _ => Except.ok.inj
  have ids : (tables.map fun table => (Except.ok table.id : Except Fault TableId)) =
      (tables.map Table.id).map .ok := List.map_map.symm
  rw [← prepared.names_eq, ← prepared.ids_eq, ids, List.nodup_map_iff injective]
  exact ⟨fun apart => ⟨apart.names, apart.ids⟩, fun apart => ⟨apart.1, apart.2⟩⟩

end Prepares

theorem exists_prepares_iff (empty : draft.catalog = .empty) :
    (∃ tables, draft.Prepares declarations tables) ↔
      ∀ declaration ∈ declarations, ∃ alone, draft.register declaration = .ok alone := by
  constructor
  · rintro ⟨tables, prepared⟩
    induction prepared with
    | nil => simp
    | cons here there ih =>
        exact List.forall_mem_cons.mpr
          ⟨⟨_, (register_eq_ok_iff_of_empty empty).mpr ⟨_, here, rfl⟩⟩, ih⟩
  · intro each
    induction declarations with
    | nil => exact ⟨[], .nil⟩
    | cons declaration rest ih =>
        obtain ⟨⟨alone, here⟩, there⟩ := List.forall_mem_cons.mp each
        obtain ⟨table, prepared, -⟩ := (register_eq_ok_iff_of_empty empty).mp here
        obtain ⟨tables, others⟩ := ih there
        exact ⟨table :: tables, .cons prepared others⟩

/-- A batch is accepted when each declaration is by itself and no two of them clash. -/
theorem exists_registerAll_iff (empty : draft.catalog = .empty) :
    (∃ final, draft.registerAll declarations = .ok final) ↔
      (∀ declaration ∈ declarations, ∃ alone, draft.register declaration = .ok alone) ∧
        (declarations.map (·.name)).Nodup ∧
        (declarations.map (·.tableId draft.worldNamespace)).Nodup := by
  rw [← exists_prepares_iff empty]
  simp only [registerAll_eq_ok_iff_of_empty empty]
  constructor
  · rintro ⟨final, tables, prepared, apart, rfl⟩
    exact ⟨⟨tables, prepared⟩, prepared.apart_iff.mp apart⟩
  · rintro ⟨⟨tables, prepared⟩, apart⟩
    exact ⟨_, tables, prepared, prepared.apart_iff.mpr apart, rfl⟩

theorem forall₂_alone (empty : draft.catalog = .empty)
    (accepted : draft.registerAll declarations = .ok final) :
    List.Forall₂ (fun declaration table => ∃ alone, draft.register declaration = .ok alone ∧
      alone.build.tables = [table]) declarations final.build.tables := by
  obtain ⟨tables, prepared, -, rfl⟩ := (registerAll_eq_ok_iff_of_empty empty).mp accepted
  change List.Forall₂ _ declarations (Catalog.empty.addAll tables).tables
  rw [Catalog.tables_addAll]
  exact prepared.imp fun declaration table here =>
    ⟨_, (register_eq_ok_iff_of_empty empty).mpr ⟨table, here, rfl⟩, rfl⟩

theorem built_of_registerAll (empty : draft.catalog = .empty)
    (accepted : draft.registerAll declarations = .ok final) :
    final.build.tables.map Table.name = declarations.map (·.name) ∧
      final.build.settings = draft.settings := by
  obtain ⟨tables, prepared, -, rfl⟩ := (registerAll_eq_ok_iff_of_empty empty).mp accepted
  refine ⟨?_, rfl⟩
  rw [← prepared.names_eq]
  exact congrArg (List.map Table.name) (Catalog.tables_addAll .empty tables)

/-! ## Other orders -/

theorem exists_registerAll_perm (empty : draft.catalog = .empty)
    (perm : declarations.Perm others) :
    (∃ final, draft.registerAll declarations = .ok final) ↔
      ∃ final, draft.registerAll others = .ok final := by
  rw [exists_registerAll_iff empty, exists_registerAll_iff empty, (perm.map _).nodup_iff,
    (perm.map _).nodup_iff]
  simp only [perm.mem_iff]

theorem tables_perm (empty : draft.catalog = .empty) (perm : declarations.Perm others)
    {other : Draft} (accepted : draft.registerAll declarations = .ok final)
    (accepted' : draft.registerAll others = .ok other) :
    final.build.tables.Perm other.build.tables := by
  obtain ⟨tables, prepared, -, rfl⟩ := (registerAll_eq_ok_iff_of_empty empty).mp accepted
  obtain ⟨tables', prepared', -, rfl⟩ := (registerAll_eq_ok_iff_of_empty empty).mp accepted'
  obtain ⟨placed, prepared'', moved⟩ := List.perm_comp_forall₂ perm prepared'
  have same : tables = placed := by
    refine List.right_unique_forall₂' ?_ prepared prepared''
    exact fun declaration table table' here there => Except.ok.inj (here.symm.trans there)
  change (Catalog.empty.addAll tables).tables.Perm (Catalog.empty.addAll tables').tables
  rw [Catalog.tables_addAll, Catalog.tables_addAll, same]
  exact moved

end Draft

namespace World

/-- Two worlds that answer alike for some names, and for all identifiers. -/
structure AgreeOn (names : List String) (first second : World) : Prop where
  table : ∀ name ∈ names, ∃ table, first.table name = .ok table ∧ second.table name = .ok table
  findId? : ∀ id, first.findId? id = second.findId? id
  encode : ∀ name ∈ names, ∀ row, first.encode name row = second.encode name row
  decode : ∀ name ∈ names, ∀ record, first.decode name record = second.decode name record
  decodeField : ∀ name ∈ names, ∀ record field,
    first.decodeField name record field = second.decodeField name record field
  manifest : ∀ name instant instant',
    (first.manifest instant).find? name = (second.manifest instant').find? name

variable {first second : World}

theorem find?_manifest_eq_some_iff (indexed : first.catalog.Indexed) {instant : Instant}
    {name : String} {manifest : TableManifest} :
    (first.manifest instant).find? name = some manifest ↔
      ∃ table ∈ first.tables, table.manifest = manifest ∧ table.name = name := by
  have distinct : ((first.tables.map (·.manifest)).map (·.name)).Nodup := by
    rw [List.map_map]
    exact indexed.byName.nodup
  refine (find?_named_eq_some_iff distinct).trans ?_
  rw [List.mem_map]
  constructor
  · rintro ⟨⟨table, member, rfl⟩, same⟩
    exact ⟨table, member, rfl, same⟩
  · rintro ⟨table, member, rfl, same⟩
    exact ⟨⟨table, member, rfl⟩, same⟩

/-- The same tables in another order answer alike. -/
theorem agreeOn_of_perm (indexed : first.catalog.Indexed) (indexed' : second.catalog.Indexed)
    (settings : first.settings = second.settings) (perm : first.tables.Perm second.tables) :
    AgreeOn (first.tables.map Table.name) first second := by
  have tables : ∀ name ∈ first.tables.map Table.name,
      ∃ table, first.table name = .ok table ∧ second.table name = .ok table := by
    intro name listed
    obtain ⟨table, member, named⟩ := List.mem_map.mp listed
    exact ⟨table, (table_eq_ok_iff indexed).mpr ⟨member, named⟩,
      (table_eq_ok_iff indexed').mpr ⟨perm.mem_iff.mp member, named⟩⟩
  refine ⟨tables, fun id => ?_, ?_, ?_, ?_, fun name instant instant' => ?_⟩
  · refine Option.ext fun table => ?_
    rw [findId?_eq_some_iff indexed, findId?_eq_some_iff indexed', perm.mem_iff]
  · intro name listed row
    obtain ⟨table, here, there⟩ := tables name listed
    rw [encode, encode, here, there, settings]
  · intro name listed record
    obtain ⟨table, here, there⟩ := tables name listed
    rw [decode, decode, here, there, settings]
  · intro name listed record field
    obtain ⟨table, here, there⟩ := tables name listed
    rw [decodeField, decodeField, here, there, settings]
  · refine Option.ext fun manifest => ?_
    rw [find?_manifest_eq_some_iff indexed, find?_manifest_eq_some_iff indexed']
    simp only [perm.mem_iff]

end World

/--
Whether a batch is accepted does not depend on its order, and neither does what the world answers.
A batch on an empty draft is accepted exactly when each declaration is accepted by itself and no two
share a name or an identifier; its tables are those that its declarations become by themselves.
-/
theorem Draft.registerAll_order (draft : Draft) (empty : draft.catalog = .empty)
    (declarations : List TableDeclaration) :
    ((∃ final, draft.registerAll declarations = .ok final) ↔
        (∀ declaration ∈ declarations, ∃ alone, draft.register declaration = .ok alone) ∧
          (declarations.map (·.name)).Nodup ∧
          (declarations.map (·.tableId draft.worldNamespace)).Nodup) ∧
      (∀ final, draft.registerAll declarations = .ok final →
        List.Forall₂ (fun declaration table => ∃ alone, draft.register declaration = .ok alone ∧
          alone.build.tables = [table]) declarations final.build.tables) ∧
      ∀ others, declarations.Perm others →
        ((∃ final, draft.registerAll declarations = .ok final) ↔
            ∃ final, draft.registerAll others = .ok final) ∧
          ∀ final final', draft.registerAll declarations = .ok final →
            draft.registerAll others = .ok final' →
            World.AgreeOn (declarations.map (·.name)) final.build final'.build := by
  refine ⟨exists_registerAll_iff empty, fun final => forall₂_alone empty, fun others perm => ?_⟩
  refine ⟨exists_registerAll_perm empty perm, fun final final' accepted accepted' => ?_⟩
  have indexed : draft.catalog.Indexed := empty ▸ Catalog.indexed_empty
  obtain ⟨names, settings⟩ := built_of_registerAll empty accepted
  rw [← names]
  refine World.agreeOn_of_perm (indexed_of_registerAll indexed accepted)
    (indexed_of_registerAll indexed accepted') ?_ (tables_perm empty perm accepted accepted')
  exact settings.trans (built_of_registerAll empty accepted').2.symm

/-- The twins in the other order. -/
theorem Draft.registerAll_order_twins :
    ∃ other, Twins.start.registerAll Twins.declaration.tables.reverse = .ok other ∧
      other.build.table "PlayerPositionOneLog" = .ok Twins.offchain := by
  obtain ⟨-, -, orders⟩ := registerAll_order Twins.start rfl Twins.declaration.tables
  obtain ⟨accepted, agree⟩ := orders _ (List.reverse_perm _).symm
  obtain ⟨other, run⟩ := accepted.mp ⟨_, Twins.registerAll_tables⟩
  obtain ⟨table, here, there⟩ :=
    (agree _ _ Twins.registerAll_tables run).table "PlayerPositionOneLog" (by decide)
  have known : Twins.draft.build.table "PlayerPositionOneLog" = .ok Twins.offchain := by
    decide +kernel
  exact ⟨other, run, there.trans (here.symm.trans known)⟩

end PackedTables
