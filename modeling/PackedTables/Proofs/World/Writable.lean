import PackedTables.Proofs.Record.Verdict
import PackedTables.Proofs.World.Catalog

/-!
# Fields that can be written

A table is accepted without a look at how long payloads may be.  So it may hold an array of a fixed
count of elements that no payload has room for.  No row that is written gives such a field a cell,
and one row gives a cell to all others at once.
-/

namespace PackedTables

/-! ## Cells -/

namespace Kind

/-- The bytes that a payload of the kind takes at least: those of the elements that it must have. -/
def least : Kind → Nat
  | .array element (some count) => count * element.width.fixed?.getD 0
  | _ => 0

/-- A cell of the kind that takes no more bytes than it must. -/
def sample : Kind → Cell
  | .array element (some count) => .array (List.replicate count element.zero)
  | kind => kind.zero

variable {kind : Kind} {cell : Cell}

theorem Scalar.least_eq (scalar : kind.Scalar) : kind.least = 0 := by
  cases scalar <;> rfl

theorem Scalar.sample_eq (scalar : kind.Scalar) : kind.sample = kind.zero := by
  cases scalar <;> rfl

theorem Scalar.takes_zero (scalar : kind.Scalar) : kind.Takes kind.zero :=
  (scalar.settles_write _).ok.mp ⟨_, scalar.write_eq_ok_iff.mpr scalar.spells_zero⟩

theorem Sound.takes_sample (sound : kind.Sound) : kind.Takes kind.sample := by
  cases sound with
  | scalar scalar =>
      rw [scalar.sample_eq]
      exact scalar.takes_zero
  | bytes => exact .bytes []
  | string => exact .string ""
  | @array element length scalar counted =>
      cases length with
      | none => exact .array (by simp) (by simp)
      | some count =>
          refine .array (fun other same => ?_) fun item member => ?_
          · rw [List.length_replicate, Option.some.inj same]
          · rw [List.eq_of_mem_replicate member]
            exact scalar.takes_zero

theorem payloadLength_array (element : Kind) (length : Option Nat) (items : List Cell) :
    (Kind.array element length).payloadLength (.array items) =
      items.length * element.width.fixed?.getD 0 := by
  simp only [payloadLength]
  cases element.width with
  | fixed width => rfl
  | varying => exact (Nat.mul_zero _).symm

theorem payloadLength_sample (kind : Kind) : kind.payloadLength kind.sample = kind.least := by
  cases kind with
  | array element length =>
      cases length with
      | none => exact (payloadLength_array element none []).trans (Nat.zero_mul _)
      | some count => rw [sample, payloadLength_array, List.length_replicate, least]
  | _ => rfl

/-- A cell with as many elements as its kind asks for takes at least their bytes. -/
theorem Takes.least_le (takes : kind.Takes cell) : kind.least ≤ kind.payloadLength cell := by
  cases takes with
  | @array element length items counted each =>
      cases length with
      | none => exact Nat.zero_le _
      | some count =>
          rw [payloadLength_array, counted count rfl]
          exact Nat.le_refl _
  | _ => exact Nat.zero_le _

end Kind

/-! ## Rows -/

namespace Row

/-- A row with a cell for each field that has one of at most so many bytes. -/
def filled (limit : Nat) (fields : List Field) : Row :=
  ofList ((fields.filter fun field => field.type.kind.least ≤ limit).map fun field =>
    (field.name, field.type.kind.sample))

theorem get?_filled {limit : Nat} {fields : List Field} (distinct : (fields.map (·.name)).Nodup)
    {name : String} {cell : Cell} :
    (filled limit fields).get? name = some cell ↔ ∃ field ∈ fields,
      field.type.kind.least ≤ limit ∧ field.name = name ∧ field.type.kind.sample = cell := by
  have names : (((fields.filter fun field => field.type.kind.least ≤ limit).map fun field =>
      (field.name, field.type.kind.sample)).map (·.1)).Nodup := by
    rw [List.map_map]
    exact (List.filter_sublist.map _).nodup distinct
  rw [filled, get?_ofList names, List.mem_map]
  simp [and_assoc]

end Row

namespace Layout

variable {layout : Layout} {rules : CodecRules} {row : Row} {field : Field}

/-- Every field that no payload limit keeps out can be written, all of them in one row. -/
theorem Sound.accepts_filled (sound : layout.Sound) :
    layout.Accepts rules (.filled rules.payloadLimit layout.fields) where
  known := by
    intro name member
    obtain ⟨cell, given⟩ := Option.isSome_iff_exists.mp (Row.mem_names_iff.mp member)
    obtain ⟨field, listed, -, named, -⟩ := (Row.get?_filled sound.distinct).mp given
    exact ⟨field, listed, named⟩
  keyed := by
    intro slot member
    have scalar := Field.scalar_of_width? (sound.keyType member) (sound.keyWidth member)
    have listed : slot.field ∈ layout.fields :=
      List.mem_append_left _ (List.mem_map_of_mem member)
    have small : slot.field.type.kind.least ≤ rules.payloadLimit :=
      scalar.least_eq ▸ Nat.zero_le _
    exact Option.isSome_iff_exists.mpr
      ⟨_, (Row.get?_filled sound.distinct).mpr ⟨_, listed, small, rfl, rfl⟩⟩
  suited := by
    intro field listed cell given
    obtain ⟨other, listed', -, same, rfl⟩ := (Row.get?_filled sound.distinct).mp given
    obtain rfl := List.inj_on_of_nodup_map sound.distinct listed' listed same
    exact (sound.types other listed).kind.takes_sample
  short := by
    intro slot member cell given
    obtain ⟨other, listed', small, same, rfl⟩ := (Row.get?_filled sound.distinct).mp given
    have listed : slot.field ∈ layout.fields :=
      List.mem_append_right _ (List.mem_append_right _ (List.mem_map_of_mem member))
    obtain rfl := List.inj_on_of_nodup_map sound.distinct listed' listed same
    rw [Kind.payloadLength_sample]
    exact small

/-- A row that can be written leaves out the fields that no payload has room for. -/
theorem Accepts.least_le (accepts : layout.Accepts rules row) (sound : layout.Sound)
    (listed : field ∈ layout.fields) (given : (row.get? field.name).isSome = true) :
    field.type.kind.least ≤ rules.payloadLimit := by
  obtain ⟨cell, found⟩ := Option.isSome_iff_exists.mp given
  have takes := accepts.suited field listed cell found
  have scalar_le (scalar : field.type.kind.Scalar) :
      field.type.kind.least ≤ rules.payloadLimit := scalar.least_eq ▸ Nat.zero_le _
  rcases List.mem_append.mp listed with inKey | inValues
  · obtain ⟨slot, member, rfl⟩ := List.mem_map.mp inKey
    exact scalar_le (Field.scalar_of_width? (sound.keyType member) (sound.keyWidth member))
  · rcases List.mem_append.mp inValues with inBlock | inPayloads
    · obtain ⟨slot, member, rfl⟩ := List.mem_map.mp inBlock
      exact scalar_le (Field.scalar_of_width? (sound.fixedType member) (sound.fixedWidth member))
    · obtain ⟨slot, member, rfl⟩ := List.mem_map.mp inPayloads
      exact Nat.le_trans takes.least_le (accepts.short slot member cell found)

end Layout

/-! ## Drafts -/

namespace Draft

variable {draft : Draft}

theorem Reachable.flaw?_eq_none (reachable : draft.Reachable) : draft.settings.flaw? = none := by
  have named {draft next : Draft} {name : String} (accepted : draft.inNamespace name = .ok next) :
      next.settings = draft.settings := by
    obtain ⟨-, -, -, rfl⟩ := inNamespace_eq_ok accepted
    rfl
  induction reachable with
  | new registry => rfl
  | withSettings registry accepted =>
      obtain ⟨settings, checked, continued⟩ := Outcome.bind_eq_ok.mp accepted
      obtain ⟨flawless, rfl⟩ := Settings.check_eq_ok_iff.mp checked
      rw [named continued]
      exact flawless
  | inNamespace before accepted ih => rwa [named accepted]
  | register before accepted ih =>
      obtain ⟨-, table, -, -, rfl⟩ := register_eq_ok_iff.mp accepted
      exact ih

/-- The same draft, whose tables are to be written and read under other rules. -/
def underCodec (codec : CodecRules) (draft : Draft) : Draft :=
  { draft with settings := { draft.settings with codec } }

theorem register_underCodec (codec : CodecRules) (declaration : TableDeclaration) :
    (draft.underCodec codec).register declaration =
      (draft.register declaration).map (underCodec codec) := by
  have prepared : (draft.underCodec codec).prepare declaration = draft.prepare declaration := rfl
  unfold register
  rw [prepared]
  change (if draft.catalog.hasName declaration.name = true then _ else _) = _
  split
  · rfl
  · cases draft.prepare declaration with
    | error fault => rfl
    | ok table =>
        change (if draft.catalog.hasId table.id = true then _ else _) = _
        simp only
        split <;> rfl

/-- Tables are accepted without a look at the rules for writing and reading. -/
theorem registerAll_underCodec (codec : CodecRules) (declarations : List TableDeclaration) :
    (draft.underCodec codec).registerAll declarations =
      (draft.registerAll declarations).map (underCodec codec) := by
  induction declarations generalizing draft with
  | nil => rfl
  | cons declaration rest ih =>
      rw [registerAll, List.foldlM_cons, register_underCodec, registerAll, List.foldlM_cons]
      cases draft.register declaration with
      | error fault => rfl
      | ok next => exact ih

end Draft

/-! ## Worlds -/

namespace World

variable {world : World} {table : Table} {row : Row} {field : Field}

/-- A row of a table that a world writes. -/
def Writes (world : World) (table : String) (row : Row) : Prop :=
  ∃ record, world.encode table row = .ok record

theorem Reachable.payloadLimit_eq (reachable : world.Reachable) :
    world.settings.codec.payloadLimit = world.settings.codec.maxDynamicLength := by
  obtain ⟨draft, reached, rfl⟩ := reachable
  exact Nat.min_eq_left (Settings.maxDynamicLength_le reached.flaw?_eq_none)

theorem Reachable.stores (reachable : world.Reachable) (member : table ∈ world.tables) :
    table.layout.Stores table.schema := by
  obtain ⟨draft, registry, declaration, prepared⟩ := reachable.prepared member
  obtain ⟨validated, planned, -⟩ := Draft.prepare_eq_ok_iff.mp prepared
  exact Layout.stores_of_plan registry validated planned

theorem Reachable.writes_iff (reachable : world.Reachable) (member : table ∈ world.tables) :
    world.Writes table.name row ↔ table.layout.Accepts world.settings.codec row := by
  have found := (table_eq_ok_iff reachable.indexed).mpr ⟨member, rfl⟩
  have settles : Outcome.Settles (world.settings.codec.encode table.layout row) _ _ :=
    Layout.settles_encode (reachable.stores member).sound
  rw [Writes, encode, found]
  exact settles.ok

theorem least_le_of_writes (reachable : world.Reachable) (member : table ∈ world.tables)
    (writes : world.Writes table.name row) (declared : field ∈ table.schema.fields)
    (given : (row.get? field.name).isSome = true) :
    field.type.kind.least ≤ world.settings.codec.maxDynamicLength := by
  have stores := reachable.stores member
  rw [← reachable.payloadLimit_eq]
  exact ((reachable.writes_iff member).mp writes).least_le stores.sound
    (stores.fields.mem_iff.mpr declared) given

/-- One row gives a cell to each field for which a payload has room. -/
theorem exists_filled (reachable : world.Reachable) (member : table ∈ world.tables) :
    ∃ row, world.Writes table.name row ∧ ∀ field ∈ table.schema.fields,
      field.type.kind.least ≤ world.settings.codec.maxDynamicLength →
        (row.get? field.name).isSome = true := by
  have stores := reachable.stores member
  refine ⟨_, (reachable.writes_iff member).mpr stores.sound.accepts_filled, ?_⟩
  intro field declared small
  rw [← reachable.payloadLimit_eq] at small
  have listed := stores.fields.mem_iff.mpr declared
  exact Option.isSome_iff_exists.mpr
    ⟨_, (Row.get?_filled stores.sound.distinct).mpr ⟨field, listed, small, rfl, rfl⟩⟩

end World

/-! ## A world with a crowded list -/

namespace Roster

/-- Five marks of one byte each, where a payload may have three bytes. -/
def declaration : WorldDeclaration where
  tables := [
    { name := "Roster", fields := [⟨"marks", "uint8[5]"⟩] },
    { name := "Pair", fields := [⟨"marks", "uint8[2]"⟩] }]

def settings : Settings := { codec := { maxDynamicLength := 3 } }

def marks (name : String) (count : Nat) : Field :=
  ⟨"marks", .ofKind name (.array (.uint 8) (some count))⟩

def roster : Table where
  id := ⟨TableId.wordOf [] (Utf8.encode "Roster") false⟩
  schema := ⟨"Roster", [marks "uint8[5]" 5], [], false⟩
  layout := ⟨"Roster", [], [], [⟨marks "uint8[5]" 5, 0, 0⟩], 0, 0⟩

def pair : Table where
  id := ⟨TableId.wordOf [] (Utf8.encode "Pair") false⟩
  schema := ⟨"Pair", [marks "uint8[2]" 2], [], false⟩
  layout := ⟨"Pair", [], [], [⟨marks "uint8[2]" 2, 0, 0⟩], 0, 0⟩

def world : World := ⟨"", .standard, settings, (Catalog.empty.add roster).add pair⟩

theorem ofDeclaration_declaration : World.ofDeclaration declaration settings = .ok world := by
  decide +kernel

end Roster

namespace World

variable {world : World} {table : Table}

/--
A row that gives a cell to every field of a table can be written exactly when no field is an array
that must have more bytes than a payload may have.  Such a field is never written, each other one
is, and tables are accepted whatever the length of payloads.
-/
theorem exists_complete_row_iff (reachable : world.Reachable) (member : table ∈ world.tables) :
    ((∃ row, world.Writes table.name row ∧
        ∀ field ∈ table.schema.fields, (row.get? field.name).isSome = true) ↔
      ∀ field ∈ table.schema.fields,
        field.type.kind.least ≤ world.settings.codec.maxDynamicLength) ∧
      (∀ field ∈ table.schema.fields,
        (∃ row, world.Writes table.name row ∧ (row.get? field.name).isSome = true) ↔
          field.type.kind.least ≤ world.settings.codec.maxDynamicLength) ∧
      ∀ (draft : Draft) (codec : CodecRules) (declarations : List TableDeclaration),
        (draft.underCodec codec).registerAll declarations =
          (draft.registerAll declarations).map (Draft.underCodec codec) := by
  obtain ⟨full, writes, given⟩ := exists_filled reachable member
  refine ⟨⟨?_, fun small => ?_⟩, fun field declared => ⟨?_, fun small => ?_⟩, ?_⟩
  · rintro ⟨row, written, whole⟩ field declared
    exact least_le_of_writes reachable member written declared (whole field declared)
  · exact ⟨full, writes, fun field declared => given field declared (small field declared)⟩
  · rintro ⟨row, written, given⟩
    exact least_le_of_writes reachable member written declared given
  · exact ⟨full, writes, given field declared small⟩
  · exact fun draft codec declarations => Draft.registerAll_underCodec codec declarations

/-- Two marks can be written and five cannot, where a payload may have three bytes. -/
theorem exists_complete_row_iff_roster :
    (∃ row, Roster.world.Writes "Pair" row ∧ (row.get? "marks").isSome = true) ∧
      ¬∃ row, Roster.world.Writes "Roster" row ∧ (row.get? "marks").isSome = true := by
  have reachable := reachable_ofDeclaration Roster.ofDeclaration_declaration
  obtain ⟨-, pairs, -⟩ := exists_complete_row_iff reachable
    (show Roster.pair ∈ Roster.world.tables by decide)
  obtain ⟨-, rosters, -⟩ := exists_complete_row_iff reachable
    (show Roster.roster ∈ Roster.world.tables by decide)
  refine ⟨(pairs _ List.mem_cons_self).mpr (by decide), fun written => ?_⟩
  have small := (rosters _ List.mem_cons_self).mp written
  exact absurd small (by decide)

/-- Settings without flaw and an accepted table, of which no row with marks can be written. -/
theorem unwritable_roster :
    Roster.settings.flaw? = none ∧
      ofDeclaration Roster.declaration Roster.settings = .ok Roster.world ∧
      Roster.roster ∈ Roster.world.tables ∧
      ∀ row, (∀ field ∈ Roster.roster.schema.fields, (row.get? field.name).isSome = true) →
        ∀ record, Roster.world.encode "Roster" row ≠ .ok record := by
  have member : Roster.roster ∈ Roster.world.tables := by decide
  refine ⟨by decide, Roster.ofDeclaration_declaration, member, fun row whole record encoded => ?_⟩
  have small := least_le_of_writes (reachable_ofDeclaration Roster.ofDeclaration_declaration) member
    ⟨record, encoded⟩ List.mem_cons_self (whole _ List.mem_cons_self)
  exact absurd small (by decide)

end World

end PackedTables
