import PackedTables.Proofs.Record.Completion

/-!
# Round trips

A row that is written is read back as it was, with zero in the fields that it left out.  The one
exception are arrays of a fixed count: a row may leave them out, and its record is then refused.
-/

namespace PackedTables

/-! ## A table of players -/

namespace Player

def declaration : TableDeclaration where
  name := "Player"
  fields := [⟨"id", "uint32"⟩, ⟨"alive", "bool"⟩, ⟨"depth", "int16"⟩, ⟨"name", "string"⟩,
    ⟨"spot", "uint8[2]"⟩]
  key := ["id"]

def idField : Field := ⟨"id", .ofKind "uint32" (.uint 32)⟩

def aliveField : Field := ⟨"alive", .ofKind "bool" .bool⟩

def depthField : Field := ⟨"depth", .ofKind "int16" (.int 16)⟩

def nameField : Field := ⟨"name", .ofKind "string" .string⟩

def spotField : Field := ⟨"spot", .ofKind "uint8[2]" (.array (.uint 8) (some 2))⟩

def schema : Schema where
  name := "Player"
  fields := [idField, aliveField, depthField, nameField, spotField]
  key := ["id"]
  offchain := false

def layout : Layout where
  table := "Player"
  keySlots := [⟨idField, 0, 4⟩]
  fixedSlots := [⟨aliveField, 0, 0, 1⟩, ⟨depthField, 1, 1, 2⟩]
  dynamicSlots := [⟨nameField, 2, 0⟩, ⟨spotField, 3, 1⟩]
  keyLength := 4
  staticLength := 3

theorem validate_declaration :
    SchemaRules.validate {} Registry.standard declaration = .ok schema :=
  rfl

theorem plan_schema : Layout.plan {} schema = .ok layout := rfl

def row : Row :=
  Row.ofList [("id", .uint 7), ("depth", .int (-2)), ("name", .string "Ann"),
    ("spot", .array [.uint 3, .uint 4])]

def record : Record where
  key := [0, 0, 0, 7]
  value := [0, 0xFF, 0xFE] ++ Lengths.pack [3, 2] ++ [0x41, 0x6E, 0x6E, 3, 4]

theorem encode_row : CodecRules.encode {} layout row = .ok record := rfl

/-- The row of the record, with the value that was left out. -/
def wholeRow : Row :=
  Row.ofList [("id", .uint 7), ("alive", .bool false), ("depth", .int (-2)), ("name", .string "Ann"),
    ("spot", .array [.uint 3, .uint 4])]

theorem decode_record : CodecRules.decode {} layout record = .ok wholeRow := by
  decide +kernel

end Player

/-! ## Reading back -/

namespace CodecRules

variable {registry : Registry} {rules limits : SchemaRules} {declaration : TableDeclaration}
  {schema : Schema} {layout : Layout} {codec : CodecRules} {row : Row} {record : Record}

/-- A written row is read back as its own cells, and as zero wherever it has none. -/
theorem decode_encode (reachable : registry.Reachable)
    (validated : rules.validate registry declaration = .ok schema)
    (planned : Layout.plan limits schema = .ok layout)
    (encoded : codec.encode layout row = .ok record)
    (pinned : ∀ field ∈ schema.fields, field.type.kind.isPinned = true →
      (row.get? field.name).isSome = true) :
    codec.decode layout record = .ok (row.complete schema.fields) ∧
      (∀ name, (row.complete schema.fields).get? name =
        (row.get? name).or ((schema.field? name).map fun field => field.type.kind.zero)) ∧
      (∀ name ∈ schema.key, (row.get? name).isSome = true) ∧
      ((∀ field ∈ schema.fields, (row.get? field.name).isSome = true) →
        codec.decode layout record = .ok row) := by
  have stores := Layout.stores_of_plan reachable validated planned
  have sound := stores.sound
  have decoded := decode_of_encode sound encoded fun field member =>
    pinned field (stores.fields.mem_iff.mp member)
  rw [Row.complete_perm sound.distinct stores.fields] at decoded
  have known : ∀ name ∈ row.names, ∃ field ∈ schema.fields, field.name = name := by
    intro name member
    obtain ⟨field, listed, named⟩ := known_of_encode sound encoded name member
    exact ⟨field, stores.fields.mem_iff.mp listed, named⟩
  refine ⟨decoded, Row.get?_complete_eq stores.schemaSound known, fun name member => ?_,
    fun given => ?_⟩
  · rw [← stores.keyNames] at member
    obtain ⟨slot, inSlots, rfl⟩ := List.mem_map.mp member
    exact keyed_of_encode sound encoded inSlots
  · rwa [Row.complete_eq_self stores.schemaSound.distinct known given] at decoded

theorem decode_encode_player :
    decode {} Player.layout Player.record = .ok (Player.row.complete Player.schema.fields) ∧
      (Player.row.complete Player.schema.fields).get? "alive" = some (.bool false) := by
  have back := decode_encode .standard Player.validate_declaration Player.plan_schema
    Player.encode_row (by decide)
  refine ⟨back.1, ?_⟩
  rw [back.2.1]
  rfl

end CodecRules

end PackedTables
