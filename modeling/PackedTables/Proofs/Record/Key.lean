import Mathlib.Data.List.Forall2
import PackedTables.Proofs.Record.Refusal
import PackedTables.Proofs.Record.Writing

/-!
# Keys

A key is what spells the cells of the key fields, one after another, each as long as its slot.  So
a key is cut again into the spellings of its cells, and rows have one key exactly when they hold the
same cells in the key fields.
-/

namespace PackedTables

/-! ## Cells and their spellings -/

namespace Kind

variable {kind : Kind} {cell other : Cell} {bytes others : Bytes}

/-- Bytes spell at most one cell, which is what they read as. -/
theorem Sound.cell_eq_of_spells (sound : kind.Sound) (spelled : kind.Spells cell bytes)
    (spelled' : kind.Spells other bytes) : cell = other := by
  have read := sound.readStored_of_spells spelled true
  have read' := sound.readStored_of_spells spelled' true
  exact Except.ok.inj (read.symm.trans read')

/-- A cell is spelled one way, which is what it is written as. -/
theorem Sound.bytes_eq_of_spells (sound : kind.Sound) (spelled : kind.Spells cell bytes)
    (spelled' : kind.Spells cell others) : bytes = others := by
  cases width : kind.width with
  | fixed count =>
      have scalar := sound.scalar_of_fixed width
      have written := scalar.write_eq_ok_iff.mpr spelled
      exact Except.ok.inj (written.symm.trans (scalar.write_eq_ok_iff.mpr spelled'))
  | varying =>
      have payload {part : Bytes} : Field.writePayload "" ⟨"", .ofKind "" kind⟩ cell = .ok part ↔
          kind.Spells cell part := Field.writePayload_eq_ok_iff sound width
      exact Except.ok.inj ((payload.mpr spelled).symm.trans (payload.mpr spelled'))

end Kind

/-! ## What a key holds -/

namespace Stored

variable {row : Row}

/-- A cell that the row gives, and the bytes that spell it. -/
def Given (row : Row) (stored : Stored) : Prop :=
  row.get? stored.field.name = some stored.cell ∧ stored.Spelled

theorem Written.given_of_isSome {stored : Stored} (written : stored.Written row)
    (present : (row.get? stored.field.name).isSome = true) : stored.Given row := by
  cases written with
  | given found spelled => exact ⟨found, spelled⟩
  | omitted missing =>
      rw [missing] at present
      cases present

end Stored

namespace Layout

variable {layout : Layout} {row other : Row} {key : Bytes}

theorem exists_held_of_writeKey (sound : layout.Sound) (written : layout.writeKey row = .ok key) :
    ∃ held : List Stored, held.map (·.field) = layout.keySlots.map (·.field) ∧
      (∀ stored ∈ held, stored.Exact) ∧ (∀ stored ∈ held, stored.Given row) ∧
      Stored.joined held = key := by
  obtain ⟨held, fields, holds, joined⟩ := (writeKey_eq_ok_iff sound).mp written
  have exact := sound.keyRun.exact layout.keySpans_fields sound.keyTypes fields
    fun stored member => (holds stored member).1
  exact ⟨held, fields, exact, fun stored member => (holds stored member).1.given_of_isSome
    (holds stored member).2, joined⟩

/-- The pieces of a key are what is held for its slots. -/
theorem keyTuple_joined (sound : layout.Sound) {held : List Stored}
    (fields : held.map (·.field) = layout.keySlots.map (·.field))
    (exact : ∀ stored ∈ held, stored.Exact) :
    layout.keyTuple (Stored.joined held) = .ok (held.map (·.part)) := by
  obtain ⟨pairs, slots, rfl, each⟩ := sound.keyRun.exists_pairs
    (fields.trans layout.keySpans_fields.symm) exact [] [] rfl
  simp only [List.nil_append, List.append_nil] at each
  have whole := CodecRules.checkKeyLength_eq_ok_iff.mpr (sound.length_key fields exact)
  have cut : layout.keySlots.mapM (fun slot =>
      part (Stored.joined (pairs.map (·.2))) slot.offset slot.width) =
        .ok ((pairs.map (·.2)).map (·.part)) := by
    have spans : (pairs.map (·.1)).mapM (fun span =>
        part (Stored.joined (pairs.map (·.2))) span.offset span.width) =
          .ok ((pairs.map (·.2)).map (·.part)) := by
      refine Outcome.mapM_eq_ok.mpr ⟨pairs.map fun pair => (pair.1, pair.2.part), ?_, ?_, ?_⟩
      · rw [List.map_map]
        rfl
      · rw [List.map_map, List.map_map]
        rfl
      · exact List.forall_mem_map.mpr fun pair member => (each pair member).2
    rwa [slots, keySpans, List.mapM_map] at spans
  rw [keyTuple, whole, Outcome.ok_bind, cut]
  rfl

/-- Keys of one string hold the same cells. -/
theorem get?_eq_of_writeKey (sound : layout.Sound) (written : layout.writeKey row = .ok key)
    (written' : layout.writeKey other = .ok key) :
    ∀ slot ∈ layout.keySlots, row.get? slot.field.name = other.get? slot.field.name := by
  obtain ⟨held, fields, exact, given, rfl⟩ := exists_held_of_writeKey sound written
  obtain ⟨others, fields', exact', given', joined⟩ := exists_held_of_writeKey sound written'
  have named := fields.trans fields'.symm
  -- The lengths of the parts come from their fields, so both keys are cut at the same places.
  have ended : Stored.joined held ++ [] = Stored.joined others ++ [] := by rw [joined]
  have parts := (Stored.parts_eq (Stored.lengths_eq_of_exact named exact exact') ended).1
  have slots := Stored.slots_eq named parts
  intro slot member
  have listed : slot.field ∈ held.map (·.field) := fields ▸ List.mem_map_of_mem member
  obtain ⟨stored, inHeld, same⟩ := List.mem_map.mp listed
  have paired : stored.slot ∈ others.map Stored.slot := slots ▸ List.mem_map_of_mem inHeld
  obtain ⟨stored', inOthers, equal⟩ := List.mem_map.mp paired
  obtain ⟨fieldSame, partSame⟩ := Prod.mk.inj equal
  obtain ⟨found, spelled⟩ := given stored inHeld
  obtain ⟨found', spelled'⟩ := given' stored' inOthers
  rw [Stored.Spelled, fieldSame, partSame] at spelled'
  rw [fieldSame] at found'
  have type : stored.field.type.Sound := same ▸ sound.keyType member
  rw [← same, found, found', type.kind.cell_eq_of_spells spelled spelled']

/-- The key of a row depends on the cells of the key fields only. -/
theorem writeKey_congr
    (agree : ∀ slot ∈ layout.keySlots, row.get? slot.field.name = other.get? slot.field.name) :
    layout.writeKey row = layout.writeKey other := by
  have each : layout.keySlots.mapM (layout.writeKeySlot row) =
      layout.keySlots.mapM (layout.writeKeySlot other) := by
    generalize layout.keySlots = slots at agree
    induction slots with
    | nil => rfl
    | cons slot slots ih =>
        obtain ⟨here, there⟩ := List.forall_mem_cons.mp agree
        rw [List.mapM_cons, List.mapM_cons, ih there, writeKeySlot, writeKeySlot, here]
  rw [writeKey, writeKey, each]

end Layout

theorem CodecRules.writeKey_of_encode {codec : CodecRules} {layout : Layout} {row : Row}
    {record : Record} (encoded : codec.encode layout row = .ok record) :
    layout.writeKey row = .ok record.key := by
  unfold encode at encoded
  split at encoded
  · cases encoded
  · obtain ⟨key, written, encoded⟩ := Outcome.bind_eq_ok.mp encoded
    obtain ⟨block, -, encoded⟩ := Outcome.bind_eq_ok.mp encoded
    obtain ⟨tail, -, encoded⟩ := Outcome.bind_eq_ok.mp encoded
    obtain rfl := Outcome.pure_eq_ok.mp encoded
    exact written

/-! ## A table of plots -/

namespace Plot

/-- The key lists its fields in another order than the table. -/
def declaration : TableDeclaration where
  name := "Plot"
  fields := [⟨"x", "int16"⟩, ⟨"note", "string"⟩, ⟨"y", "uint8"⟩]
  key := ["y", "x"]

def xField : Field := ⟨"x", .ofKind "int16" (.int 16)⟩

def noteField : Field := ⟨"note", .ofKind "string" .string⟩

def yField : Field := ⟨"y", .ofKind "uint8" (.uint 8)⟩

def schema : Schema where
  name := "Plot"
  fields := [xField, noteField, yField]
  key := ["y", "x"]
  offchain := false

def layout : Layout where
  table := "Plot"
  keySlots := [⟨yField, 0, 1⟩, ⟨xField, 1, 2⟩]
  fixedSlots := []
  dynamicSlots := [⟨noteField, 0, 0⟩]
  keyLength := 3
  staticLength := 0

theorem validate_declaration :
    SchemaRules.validate {} Registry.standard declaration = .ok schema :=
  rfl

theorem plan_schema : Layout.plan {} schema = .ok layout := rfl

def row (note : String) : Row :=
  Row.ofList [("x", .int (-2)), ("y", .uint 7), ("note", .string note)]

theorem writeKey_row : layout.writeKey (row "oak") = .ok [7, 0xFF, 0xFE] := rfl

end Plot

/-! ## Keys of planned layouts -/

/-- What one field of a row is written as, by itself. -/
def Schema.Piece (schema : Schema) (row : Row) (name : String) (piece : Bytes) : Prop :=
  ∃ field cell, schema.field? name = some field ∧ row.get? name = some cell ∧
    field.write schema.name cell = .ok piece

namespace Layout

variable {layout : Layout} {registry : Registry} {rules limits : SchemaRules}
  {declaration : TableDeclaration} {schema : Schema} {row : Row}

/-- The parts of a key are the pieces of the row, in the order of the key list. -/
theorem Stores.forall₂_piece (stores : layout.Stores schema) {held : List Stored}
    (fields : held.map (·.field) = layout.keySlots.map (·.field))
    (exact : ∀ stored ∈ held, stored.Exact) (given : ∀ stored ∈ held, stored.Given row) :
    List.Forall₂ (schema.Piece row) schema.key (held.map (·.part)) := by
  have names := congrArg (List.map Field.name) fields
  rw [List.map_map, List.map_map] at names
  have listed : schema.key = held.map fun stored => stored.field.name :=
    stores.keyNames.symm.trans names.symm
  rw [listed, List.forall₂_map_left_iff, List.forall₂_map_right_iff, List.forall₂_same]
  intro stored member
  obtain ⟨found, spelled⟩ := given stored member
  have inKey : stored.field ∈ layout.keySlots.map (·.field) := fields ▸ List.mem_map_of_mem member
  have known : stored.field ∈ schema.fields :=
    stores.fields.mem_iff.mp (List.mem_append_left _ inKey)
  have scalar := Field.scalar_of_width? (stores.sound.keyTypes _ inKey) (exact stored member)
  exact ⟨stored.field, stored.cell, stores.schemaSound.field?_eq_some_iff.mpr ⟨known, rfl⟩, found,
    (Field.write_eq_ok_iff scalar).mpr spelled⟩

theorem Stores.agree_iff (stores : layout.Stores schema) {other : Row} :
    (∀ slot ∈ layout.keySlots, row.get? slot.field.name = other.get? slot.field.name) ↔
      ∀ name ∈ schema.key, row.get? name = other.get? name := by
  rw [← stores.keyNames, List.forall_mem_map]

/--
Keys identify rows.  Rows have one key exactly when they agree on every field of the key, and no
other field changes a key.  A key is as long as the layout says, and its pieces are what the fields
of the key are written as, one by one, in the order of the key list.  A record lies under the key of
its row.
-/
theorem writeKey_identifies (reachable : registry.Reachable)
    (validated : rules.validate registry declaration = .ok schema)
    (planned : plan limits schema = .ok layout) :
    (∀ row other key key', layout.writeKey row = .ok key → layout.writeKey other = .ok key' →
        (key = key' ↔ ∀ name ∈ schema.key, row.get? name = other.get? name)) ∧
      (∀ row other, (∀ name ∈ schema.key, row.get? name = other.get? name) →
        layout.writeKey row = layout.writeKey other) ∧
      (∀ row key, layout.writeKey row = .ok key →
        key.length = layout.keyLength ∧ ∃ pieces, layout.keyTuple key = .ok pieces ∧
          pieces.flatten = key ∧ List.Forall₂ (schema.Piece row) schema.key pieces) ∧
      ∀ (codec : CodecRules) row record, codec.encode layout row = .ok record →
        layout.writeKey row = .ok record.key := by
  have stores := stores_of_plan reachable validated planned
  have sound := stores.sound
  have congruent : ∀ row other, (∀ name ∈ schema.key, row.get? name = other.get? name) →
      layout.writeKey row = layout.writeKey other :=
    fun row other agree => writeKey_congr (stores.agree_iff.mpr agree)
  refine ⟨fun row other key key' written written' => ⟨?_, fun agree => ?_⟩, congruent,
    fun row key written => ?_, fun codec row record => CodecRules.writeKey_of_encode⟩
  · rintro rfl
    exact stores.agree_iff.mp (get?_eq_of_writeKey sound written written')
  · rw [congruent row other agree, written'] at written
    exact (Except.ok.inj written).symm
  · obtain ⟨held, fields, exact, given, rfl⟩ := exists_held_of_writeKey sound written
    exact ⟨sound.length_key fields exact, held.map (·.part), keyTuple_joined sound fields exact,
      rfl, stores.forall₂_piece fields exact given⟩

/-- Plots of one place have one key, which is cut into the place. -/
theorem writeKey_identifies_plot :
    Plot.layout.writeKey (Plot.row "elm") = .ok [7, 0xFF, 0xFE] ∧
      (Plot.row "elm").get? "note" ≠ (Plot.row "oak").get? "note" ∧
      ∃ pieces, Plot.layout.keyTuple [7, 0xFF, 0xFE] = .ok pieces ∧
        List.Forall₂ (Plot.schema.Piece (Plot.row "oak")) ["y", "x"] pieces := by
  obtain ⟨-, congruent, cut, -⟩ := writeKey_identifies .standard Plot.validate_declaration
    Plot.plan_schema
  have same := congruent (Plot.row "elm") (Plot.row "oak") (by decide)
  obtain ⟨-, pieces, tuple, -, each⟩ := cut (Plot.row "oak") _ Plot.writeKey_row
  exact ⟨same.trans Plot.writeKey_row, by decide, pieces, tuple, each⟩

end Layout

end PackedTables
