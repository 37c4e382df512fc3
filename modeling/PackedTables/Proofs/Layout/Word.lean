import PackedTables.Proofs.Layout.Placement
import PackedTables.World.Manifest

/-!
# What layout words hold

A layout word has two bytes for a length, one for each of two counts, and twenty-eight for entries.
The numbers of a planned layout fit there, whatever limits it was planned under: a key takes at most
twenty-eight times thirty-two bytes, and planning refuses what else would not fit.  So each word
holds its numbers whole, and its entries stand in the order in which a manifest lists the fields.
-/

namespace PackedTables

/-- The number that the byte at a place is. -/
def Bytes.numberAt? (bytes : Bytes) (place : Nat) : Option Nat := bytes[place]?.map UInt8.toNat

namespace Layout

/-- A word that holds a length, two counts and some entries, and zero bytes behind them. -/
structure Holds (word : Bytes) (length fixed dynamic : Nat) (entries : List Nat) : Prop where
  size : word.length = 32
  length : Bytes.number (word.take 2) = length
  fixed : Bytes.numberAt? word 2 = some fixed
  dynamic : Bytes.numberAt? word 3 = some dynamic
  entry : ∀ index entry, entries[index]? = some entry →
    Bytes.numberAt? word (4 + index) = some entry
  rest : ∀ place, 4 + entries.length ≤ place → place < 32 → Bytes.numberAt? word place = some 0

/-- The numbers of the value slots, each with its field. -/
def valueSlots (layout : Layout) : List (Nat × Field) :=
  layout.fixedSlots.map (fun slot => (slot.slot, slot.field)) ++
    layout.dynamicSlots.map fun slot => (slot.slot, slot.field)

/-! ## Words -/

variable {length fixed dynamic : Nat} {entries : List UInt8}

theorem take_packWord (length fixed dynamic : Nat) (entries : List UInt8) :
    (packWord length fixed dynamic entries).take 4 =
      Bytes.bigEndian 2 length ++ [UInt8.ofNat fixed, UInt8.ofNat dynamic] := by
  rw [packWord]
  exact List.take_left' (by simp)

/-- Entries that are few enough stand from the fifth byte on, before zero bytes. -/
theorem drop_packWord (few : entries.length ≤ 28) :
    (packWord length fixed dynamic entries).drop 4 =
      entries ++ List.replicate (28 - entries.length) 0 := by
  rw [packWord, Bytes.padRight, wordEntries, List.take_of_length_le few]
  exact List.drop_left' (by simp)

theorem holds_packWord (entries : List UInt8) (short : length < 65536) (fewFixed : fixed < 256)
    (fewDynamic : dynamic < 256) (few : entries.length ≤ 28) :
    Holds (packWord length fixed dynamic entries) length fixed dynamic
      (entries.map UInt8.toNat) := by
  have front (place : Nat) (inside : place < 4) : (packWord length fixed dynamic entries)[place]? =
      (Bytes.bigEndian 2 length ++ [UInt8.ofNat fixed, UInt8.ofNat dynamic])[place]? := by
    rw [← take_packWord length fixed dynamic entries, List.getElem?_take_of_lt inside]
  have behind (index : Nat) : (packWord length fixed dynamic entries)[4 + index]? =
      (entries ++ List.replicate (28 - entries.length) 0)[index]? := by
    rw [← drop_packWord few, List.getElem?_drop]
  have written : (Bytes.bigEndian 2 length).length = 2 := Bytes.length_bigEndian 2 length
  refine ⟨length_packWord length fixed dynamic entries, ?_, ?_, ?_, fun index entry here => ?_,
    fun place beyond inside => ?_⟩
  · have first : (packWord length fixed dynamic entries).take 2 = Bytes.bigEndian 2 length := by
      rw [packWord, List.append_assoc]
      exact List.take_left' written
    rw [first, Bytes.number_bigEndian]
    exact Nat.mod_eq_of_lt short
  · rw [Bytes.numberAt?, front 2 (by decide), List.getElem?_append_right (by omega), written]
    exact congrArg some (UInt8.toNat_ofNat_of_lt fewFixed)
  · rw [Bytes.numberAt?, front 3 (by decide), List.getElem?_append_right (by omega), written]
    exact congrArg some (UInt8.toNat_ofNat_of_lt fewDynamic)
  · have inside : index < entries.length := by
      rw [← List.length_map UInt8.toNat]
      exact (List.getElem?_eq_some_iff.mp here).1
    rw [Bytes.numberAt?, behind, List.getElem?_append_left inside, ← List.getElem?_map, here]
  · obtain ⟨index, rfl⟩ := Nat.exists_eq_add_of_le (Nat.le_trans (Nat.le_add_right 4 _) beyond)
    rw [List.length_map] at beyond
    rw [Bytes.numberAt?, behind, List.getElem?_append_right (by omega),
      List.getElem?_replicate_of_lt (by omega)]
    rfl

/-! ## Numbers of a layout -/

namespace Sound

variable {layout : Layout} (sound : layout.Sound)
include sound

theorem staticLength_lt : layout.staticLength < 65536 :=
  Nat.lt_succ_of_le sound.within.shortBlock

theorem width_lt {slot : FixedSlot} (member : slot ∈ layout.fixedSlots) : slot.width < 256 :=
  Nat.lt_of_le_of_lt (Field.width_le (sound.fixedType member) (sound.fixedWidth member))
    (by decide)

theorem holds_fieldLayout : Holds layout.fieldLayout layout.staticLength layout.fixedSlots.length
    layout.dynamicSlots.length (layout.fixedSlots.map (·.width)) := by
  have few := sound.within.fewValues
  unfold Limits.maxFields at few
  have widths : (layout.fixedSlots.map fun slot => UInt8.ofNat slot.width).map UInt8.toNat =
      layout.fixedSlots.map (·.width) := by
    rw [List.map_map]
    exact List.map_congr_left fun slot member => UInt8.toNat_ofNat_of_lt (sound.width_lt member)
  rw [← widths]
  exact holds_packWord _ sound.staticLength_lt (by omega) (by omega)
    (by rw [List.length_map]; omega)

theorem holds_valueSchema : Holds layout.valueSchema layout.staticLength layout.fixedSlots.length
    layout.dynamicSlots.length (layout.valueFields.map fun field => field.type.typeId.toNat) := by
  have few := sound.within.fewValues
  unfold Limits.maxFields at few
  have held := holds_packWord (layout.valueFields.map (·.type.typeId)) sound.staticLength_lt
    (show layout.fixedSlots.length < 256 by omega)
    (show layout.dynamicSlots.length < 256 by omega) (by simp [valueFields]; omega)
  rwa [List.map_map] at held

theorem holds_keySchema : Holds layout.keySchema layout.keyLength layout.keySlots.length 0
    (layout.keySlots.map fun slot => slot.field.type.typeId.toNat) := by
  have few := sound.within.fewKeys
  unfold Limits.maxFields at few
  have held := holds_packWord (layout.keySlots.map (·.field.type.typeId)) sound.keyLength_lt
    (show layout.keySlots.length < 256 by omega) (show 0 < 256 by decide)
    (by rw [List.length_map]; omega)
  rwa [List.map_map] at held

end Sound

/-! ## Numbers of value slots -/

variable {layout : Layout}

theorem valueSlots_fields (layout : Layout) : layout.valueSlots.map (·.2) = layout.valueFields := by
  rw [valueSlots, List.map_append, List.map_map, List.map_map]
  rfl

theorem Planned.valueSlots_numbers {limits : SchemaRules} {schema : Schema}
    (planned : layout.Planned limits schema) :
    layout.valueSlots.map (·.1) =
      List.range (layout.fixedSlots.length + layout.dynamicSlots.length) := by
  have block : layout.fixedSlots.map (·.slot) = List.range layout.fixedSlots.length := by
    rw [planned.fixed, planFixed_numbers, List.range_eq_range']
  have payloads : layout.dynamicSlots.map (·.slot) =
      List.range' layout.fixedSlots.length layout.dynamicSlots.length := by
    rw [planned.dynamic, planDynamic_numbers]
  have joined : List.range layout.fixedSlots.length ++
      List.range' layout.fixedSlots.length layout.dynamicSlots.length =
        List.range (layout.fixedSlots.length + layout.dynamicSlots.length) := by
    rw [List.range_eq_range', List.range_eq_range', ← List.range'_append_1, Nat.zero_add]
  rw [valueSlots, List.map_append, List.map_map, List.map_map, ← joined, ← block, ← payloads]
  rfl

/-- The number of a value slot is its place among the values. -/
theorem Planned.getElem?_valueFields {limits : SchemaRules} {schema : Schema}
    (planned : layout.Planned limits schema) {number : Nat} {field : Field}
    (slotted : (number, field) ∈ layout.valueSlots) : layout.valueFields[number]? = some field := by
  obtain ⟨place, here⟩ := List.mem_iff_getElem?.mp slotted
  have numbered : (layout.valueSlots.map (·.1))[place]? = some number := by
    rw [List.getElem?_map, here]
    rfl
  rw [planned.valueSlots_numbers] at numbered
  obtain ⟨inside, rfl⟩ := List.getElem?_eq_some_iff.mp numbered
  rw [List.getElem_range, ← valueSlots_fields, List.getElem?_map, here]
  rfl

/-! ## All words -/

variable {registry : Registry} {rules : SchemaRules} {declaration : TableDeclaration}
  {schema : Schema}

/--
Whatever the limits, the words of a planned layout hold its numbers whole.  The first word holds the
widths of the fixed block, which sum to its length.  The others hold the type numbers, of the values
by slot and of the key in its order, each at the place that its field has in a manifest.
-/
theorem words_lossless (reachable : registry.Reachable)
    (validated : rules.validate registry declaration = .ok schema) (limits : SchemaRules)
    (accepted : plan limits schema = .ok layout) :
    Holds layout.fieldLayout layout.staticLength layout.fixedSlots.length
        layout.dynamicSlots.length (layout.fixedSlots.map (·.width)) ∧
      (layout.fixedSlots.map (·.width)).sum = layout.staticLength ∧
      Holds layout.valueSchema layout.staticLength layout.fixedSlots.length
        layout.dynamicSlots.length (layout.valueFields.map fun field => field.type.typeId.toNat) ∧
      layout.valueSchema.take 4 = layout.fieldLayout.take 4 ∧
      Holds layout.keySchema layout.keyLength layout.keySlots.length 0
        (layout.keySlots.map fun slot => slot.field.type.typeId.toNat) ∧
      layout.valueSlots.map (·.1) =
        List.range (layout.fixedSlots.length + layout.dynamicSlots.length) ∧
      ∀ id : TableId,
        (∀ number field, (number, field) ∈ layout.valueSlots →
          Bytes.numberAt? layout.valueSchema (4 + number) = some field.type.typeId.toNat ∧
            (Table.mk id schema layout).manifest.values[number]? =
              some (ManifestField.ofField field)) ∧
        (Table.mk id schema layout).manifest.values.length =
          layout.fixedSlots.length + layout.dynamicSlots.length ∧
        (∀ index slot, layout.keySlots[index]? = some slot →
          Bytes.numberAt? layout.keySchema (4 + index) = some slot.field.type.typeId.toNat ∧
            (Table.mk id schema layout).manifest.key[index]? =
              some (ManifestField.ofField slot.field)) ∧
        (Table.mk id schema layout).manifest.key.length = layout.keySlots.length := by
  have planned := planned_of_plan accepted
  have sound := (stores_of_plan reachable validated accepted).sound
  refine ⟨sound.holds_fieldLayout, ?_, sound.holds_valueSchema, ?_, sound.holds_keySchema,
    planned.valueSlots_numbers, fun id => ⟨fun number field slotted => ?_, ?_,
      fun index slot here => ?_, List.length_map _⟩⟩
  · rw [planned.staticLength, Bytes.joinedLength_eq_sum]
  · rw [valueSchema, fieldLayout, take_packWord, take_packWord]
  · have listed := planned.getElem?_valueFields slotted
    refine ⟨sound.holds_valueSchema.entry number _ ?_, ?_⟩
    · rw [List.getElem?_map, listed]
      rfl
    · rw [Table.manifest, List.getElem?_map, listed]
      rfl
  · rw [Table.manifest, List.length_map, valueFields, List.length_append, List.length_map,
      List.length_map]
  · refine ⟨sound.holds_keySchema.entry index _ ?_, ?_⟩
    · rw [List.getElem?_map, here]
      rfl
    · rw [Table.manifest, List.getElem?_map, here]
      rfl

/-- Limits that no word could honour leave the words of the goods as they are. -/
theorem words_lossless_inventory :
    ∃ layout, plan ⟨[], true, 500, 500, 500, 100000⟩ Inventory.schema = .ok layout ∧
      Holds layout.fieldLayout 5 2 2 [4, 1] ∧ Holds layout.valueSchema 5 2 2 [3, 96, 197, 165] ∧
      Holds layout.keySchema 52 2 0 [95, 97] ∧
      ∀ id : TableId, (Table.mk id Inventory.schema layout).manifest.values[3]? =
        some ⟨"tags", "bytes4[]"⟩ := by
  obtain ⟨fixed, -, values, -, keys, -, listed⟩ := words_lossless .standard
    Inventory.validate_declaration ⟨[], true, 500, 500, 500, 100000⟩ rfl
  refine ⟨_, rfl, fixed, values, keys, fun id => ?_⟩
  exact ((listed id).1 3 Inventory.tagsField (by decide)).2

end Layout

end PackedTables
