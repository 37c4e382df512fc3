import PackedTables.Proofs.Layout.Extent
import PackedTables.Proofs.Layout.Position

/-!
# Placement

A schema has one layout: key fields in the order of the key list, then the values of fixed width and
then the others, both as they were declared, each field where the widths before it end.  Limits
decide whether planning answers with that layout, and never what it is.
-/

namespace PackedTables

/-- A stretch starts where the stretches before it end. -/
theorem Span.Run.offset_eq {start stop : Nat} {spans : List Span} (run : Span.Run start spans stop)
    {index : Nat} {span : Span} (here : spans[index]? = some span) :
    span.offset = start + Bytes.joinedLength ((spans.take index).map (·.width)) := by
  induction run generalizing index with
  | nil => simp at here
  | @cons field start width stop spans sized run ih =>
      cases index with
      | zero =>
          obtain rfl := Option.some.inj here
          rfl
      | succ index =>
          rw [ih here, List.take_succ_cons, List.map_cons, Bytes.joinedLength, Nat.add_assoc]

namespace Schema

def fixedFields (schema : Schema) : List Field :=
  schema.valueFields.filter fun field => field.width?.isSome

def dynamicFields (schema : Schema) : List Field :=
  schema.valueFields.filter fun field => field.width?.isNone

/-- The length of all values of fixed width. -/
def blockLength (schema : Schema) : Nat :=
  Bytes.joinedLength (schema.fixedFields.filterMap Field.width?)

/-- A count or a length of a table lies above its limit, or above what the stored form holds. -/
inductive Exceeds (schema : Schema) (limits : SchemaRules) : LimitFlaw → Prop
  | keyFields : min limits.maxKeyFields 28 < schema.key.length →
      Exceeds schema limits (.keyFields schema.key.length (min limits.maxKeyFields 28))
  | valueFields : min limits.maxValueFields 28 < schema.valueFields.length →
      Exceeds schema limits
        (.valueFields schema.valueFields.length (min limits.maxValueFields 28))
  | dynamicFields : min limits.maxDynamicFields 5 < schema.dynamicFields.length →
      Exceeds schema limits
        (.dynamicFields schema.dynamicFields.length (min limits.maxDynamicFields 5))
  | fixedBlock : min limits.maxStaticLength 65535 < schema.blockLength →
      Exceeds schema limits (.fixedBlock schema.blockLength (min limits.maxStaticLength 65535))

end Schema

namespace Layout

/-- Every slot of a layout, as it follows from the schema. -/
structure Places (layout : Layout) (schema : Schema) : Prop where
  table : layout.table = schema.name
  keyFields : layout.keySlots.map (fun slot => some slot.field) = schema.key.map schema.field?
  fixedFields : layout.fixedSlots.map (·.field) = schema.fixedFields
  dynamicFields : layout.dynamicSlots.map (·.field) = schema.dynamicFields
  keyWidths : ∀ slot ∈ layout.keySlots, slot.field.width? = some slot.width
  fixedWidths : ∀ slot ∈ layout.fixedSlots, slot.field.width? = some slot.width
  keyOffsets : ∀ index slot, layout.keySlots[index]? = some slot →
    slot.offset = Bytes.joinedLength ((layout.keySlots.take index).map (·.width))
  fixedOffsets : ∀ index slot, layout.fixedSlots[index]? = some slot →
    slot.offset = Bytes.joinedLength ((layout.fixedSlots.take index).map (·.width))
  keyLength : layout.keyLength = Bytes.joinedLength (layout.keySlots.map (·.width))
  staticLength : layout.staticLength = Bytes.joinedLength (layout.fixedSlots.map (·.width))
  fixedNumbers : layout.fixedSlots.map (·.slot) = List.range layout.fixedSlots.length
  dynamicNumbers : layout.dynamicSlots.map (·.slot) =
    List.range' layout.fixedSlots.length layout.dynamicSlots.length
  ordinals : layout.dynamicSlots.map (·.ordinal) = List.range layout.dynamicSlots.length

variable {schema : Schema} {layout : Layout} {limits : SchemaRules}

/-! ## Slots -/

theorem planFixed_numbers (slot offset : Nat) (fields : List Field) :
    (planFixed slot offset fields).map (·.slot) =
      List.range' slot (planFixed slot offset fields).length := by
  induction fields generalizing slot offset with
  | nil => rfl
  | cons field rest ih =>
      unfold planFixed
      cases field.width? with
      | none => exact ih slot offset
      | some width => rw [List.map_cons, ih, List.length_cons, List.range'_succ]

theorem planDynamic_numbers (slot ordinal : Nat) (fields : List Field) :
    (planDynamic slot ordinal fields).map (·.slot) =
      List.range' slot (planDynamic slot ordinal fields).length := by
  induction fields generalizing slot ordinal with
  | nil => rfl
  | cons field rest ih =>
      unfold planDynamic
      cases field.width? with
      | none => rw [List.map_cons, ih, List.length_cons, List.range'_succ]
      | some width => exact ih slot ordinal

/-- A key list of fields of fixed width is always placed. -/
theorem exists_planKey (offset : Nat) {names : List String}
    (fixed : ∀ name ∈ names, ∃ field, schema.field? name = some field ∧
      field.type.isFixed = true) :
    ∃ slots, planKey schema offset names = .ok slots := by
  induction names generalizing offset with
  | nil => exact ⟨[], rfl⟩
  | cons name rest ih =>
      obtain ⟨⟨field, found, sized⟩, others⟩ := List.forall_mem_cons.mp fixed
      obtain ⟨width, exact⟩ := Option.isSome_iff_exists.mp sized
      obtain ⟨slots, there⟩ := ih (offset + width) others
      have here : (schema.field? name).bind
          (fun field => field.width?.map fun width => (field, width)) = some (field, width) := by
        rw [found, Option.bind_some, Field.width?, exact]
        rfl
      refine ⟨⟨field, offset, width⟩ :: slots, ?_⟩
      rw [planKey, here]
      simp only
      rw [there]

/-! ## The layout of a schema -/

/-- Limits aside, planning comes down to one layout of the schema. -/
theorem exists_places (limits : SchemaRules) (sound : schema.Sound)
    (nonempty : schema.fields ≠ []) :
    ∃ layout : Layout, layout.Places schema ∧
      (∀ flaw, layout.limitFlaw? limits = some flaw →
        plan limits schema = .error (.layoutLimit schema.name flaw)) ∧
      (layout.limitFlaw? limits = none → plan limits schema = .ok layout) := by
  obtain ⟨keySlots, keyed⟩ := exists_planKey 0 sound.keyFixed
  have declared : schema.fields.isEmpty = false := by simpa using nonempty
  refine ⟨⟨schema.name, keySlots, planFixed 0 0 schema.valueFields,
    planDynamic (planFixed 0 0 schema.valueFields).length 0 schema.valueFields,
    Bytes.joinedLength (keySlots.map (·.width)),
    Bytes.joinedLength ((planFixed 0 0 schema.valueFields).map (·.width))⟩, ?_, ?_, ?_⟩
  · obtain ⟨keyFields, keyRun⟩ := planKey_eq_ok keyed
    have fixedRun := planFixed_run 0 0 schema.valueFields
    refine ⟨rfl, keyFields, planFixed_fields 0 0 _, ?_, ?_, ?_, ?_, ?_, rfl, rfl, ?_,
      planDynamic_numbers _ 0 _, ?_⟩
    · rw [planDynamic_fields]
      exact List.filter_congr fun field _ => Option.not_isSome field.width?
    · exact fun slot member => keyRun.sized _ (List.mem_map_of_mem member)
    · exact fun slot member => fixedRun.sized _ (List.mem_map_of_mem member)
    · intro index slot here
      have spanned : (keySlots.map KeySlot.span)[index]? = some slot.span := by
        rw [List.getElem?_map, here]
        rfl
      have placed := keyRun.offset_eq spanned
      rwa [← List.map_take, List.map_map, Nat.zero_add] at placed
    · intro index slot here
      have spanned : ((planFixed 0 0 schema.valueFields).map FixedSlot.span)[index]? =
          some slot.span := by
        rw [List.getElem?_map, here]
        rfl
      have placed := fixedRun.offset_eq spanned
      rwa [← List.map_take, List.map_map, Nat.zero_add] at placed
    · rw [planFixed_numbers, List.range_eq_range']
    · rw [planDynamic_ordinals, List.range_eq_range']
  · intro flaw flawed
    simp [plan, declared, keyed, flawed]
  · intro flawless
    simp [plan, declared, keyed, flawless]

/-! ## Limits -/

namespace Places

theorem counts (places : layout.Places schema) :
    layout.keySlots.length = schema.key.length ∧
      layout.fixedSlots.length + layout.dynamicSlots.length = schema.valueFields.length ∧
      layout.dynamicSlots.length = schema.dynamicFields.length := by
  have keys := congrArg List.length places.keyFields
  have fixed := congrArg List.length places.fixedFields
  have dynamic := congrArg List.length places.dynamicFields
  rw [List.length_map, List.length_map] at keys
  rw [List.length_map] at fixed dynamic
  refine ⟨keys, ?_, dynamic⟩
  rw [fixed, dynamic, ← List.length_append]
  have parts := List.filter_append_perm (fun field : Field => field.width?.isSome)
    schema.valueFields
  simp only [Option.not_isSome] at parts
  exact parts.length_eq

theorem staticLength_eq (places : layout.Places schema) :
    layout.staticLength = schema.blockLength := by
  have widths : layout.fixedSlots.map (·.width) = schema.fixedFields.filterMap Field.width? := by
    rw [← places.fixedFields, List.filterMap_map, ← List.filterMap_eq_map]
    exact List.filterMap_congr fun slot member => (places.fixedWidths slot member).symm
  rw [places.staticLength, widths, Schema.blockLength]

theorem exceeds_of_limitFlaw? (places : layout.Places schema) {flaw : LimitFlaw}
    (flawed : layout.limitFlaw? limits = some flaw) : schema.Exceeds limits flaw := by
  obtain ⟨keys, values, dynamic⟩ := places.counts
  simp only [limitFlaw?] at flawed
  rw [values, keys, dynamic, places.staticLength_eq] at flawed
  split at flawed
  · rename_i above
    obtain rfl := Option.some.inj flawed
    exact .keyFields above
  · split at flawed
    · rename_i above
      obtain rfl := Option.some.inj flawed
      exact .valueFields above
    · split at flawed
      · rename_i above
        obtain rfl := Option.some.inj flawed
        exact .dynamicFields above
      · split at flawed
        · rename_i above
          obtain rfl := Option.some.inj flawed
          exact .fixedBlock above
        · cases flawed

theorem not_exceeds_of_limitFlaw? (places : layout.Places schema)
    (flawless : layout.limitFlaw? limits = none) (flaw : LimitFlaw) :
    ¬schema.Exceeds limits flaw := by
  obtain ⟨keys, values, dynamic⟩ := places.counts
  simp only [limitFlaw?] at flawless
  rw [values, keys, dynamic, places.staticLength_eq] at flawless
  split at flawless
  · cases flawless
  · rename_i keyFits
    split at flawless
    · cases flawless
    · rename_i valueFits
      split at flawless
      · cases flawless
      · rename_i dynamicFits
        split at flawless
        · cases flawless
        · rename_i blockFits
          intro exceeds
          cases exceeds with
          | keyFields above => exact keyFits above
          | valueFields above => exact valueFits above
          | dynamicFields above => exact dynamicFits above
          | fixedBlock above => exact blockFits above

end Places

/-! ## Partitions -/

namespace Stores

/-- A field of the schema has one position, which its name leads to. -/
theorem existsUnique_position (stores : layout.Stores schema) {field : Field}
    (member : field ∈ schema.fields) :
    ∃ position, layout.position? field.name = some position ∧ position ∈ layout.positions ∧
      position.field = field ∧
      ∀ other ∈ layout.positions, other.field = field → other = position := by
  have listed : field ∈ layout.positions.map Position.field :=
    layout.positions_fields ▸ stores.fields.mem_iff.mpr member
  obtain ⟨position, placed, rfl⟩ := List.mem_map.mp listed
  have found := stores.sound.position?_eq_some_iff.mpr ⟨placed, rfl⟩
  refine ⟨position, found, placed, rfl, fun other there same => ?_⟩
  have again := stores.sound.position?_eq_some_iff.mpr ⟨there, congrArg Field.name same⟩
  exact Option.some.inj (again.symm.trans found)

theorem position?_eq_none_iff (stores : layout.Stores schema) {name : String} :
    layout.position? name = none ↔ ∀ field ∈ schema.fields, field.name ≠ name := by
  rw [Layout.position?_eq_none_iff]
  exact forall_congr' fun field => imp_congr_left stores.fields.mem_iff

end Stores

/-! ## Outcomes -/

/-- What planning can answer: a table without fields and one above a limit are refused. -/
inductive Planning (limits : SchemaRules) (schema : Schema) : Except Fault Layout → Prop
  | empty : schema.fields = [] → Planning limits schema (.error (.emptySchema schema.name))
  | refused {flaw : LimitFlaw} : schema.fields ≠ [] → schema.Exceeds limits flaw →
      Planning limits schema (.error (.layoutLimit schema.name flaw))
  | placed {layout : Layout} : schema.fields ≠ [] → (∀ flaw, ¬schema.Exceeds limits flaw) →
      layout.Places schema → Planning limits schema (.ok layout)

theorem planning_plan (sound : schema.Sound) (limits : SchemaRules) :
    Planning limits schema (plan limits schema) := by
  by_cases empty : schema.fields = []
  · have refused : plan limits schema = .error (.emptySchema schema.name) := by
      rw [plan, empty]
      rfl
    exact refused ▸ .empty empty
  · obtain ⟨layout, places, above, within⟩ := exists_places limits sound empty
    cases flawed : layout.limitFlaw? limits with
    | some flaw =>
        rw [above flaw flawed]
        exact .refused empty (places.exceeds_of_limitFlaw? flawed)
    | none =>
        rw [within flawed]
        exact .placed empty (places.not_exceeds_of_limitFlaw? flawed) places

/-- What is planned under two limits is one layout. -/
theorem plan_eq_of_plan {other : SchemaRules} {layout' : Layout}
    (accepted : plan limits schema = .ok layout) (accepted' : plan other schema = .ok layout') :
    layout' = layout := by
  have planned := planned_of_plan accepted
  have planned' := planned_of_plan accepted'
  have table := planned'.table.trans planned.table.symm
  have keys := Except.ok.inj (planned'.key.symm.trans planned.key)
  have block := planned'.fixed.trans planned.fixed.symm
  have payloads : layout'.dynamicSlots = layout.dynamicSlots := by
    rw [planned'.dynamic, planned.dynamic, block]
  have keyLength : layout'.keyLength = layout.keyLength := by
    rw [planned'.keyLength, planned.keyLength, keys]
  have staticLength : layout'.staticLength = layout.staticLength := by
    rw [planned'.staticLength, planned.staticLength, block]
  cases layout
  cases layout'
  rw [Layout.mk.injEq]
  exact ⟨table, keys, block, payloads, keyLength, staticLength⟩

end Layout

/-! ## A table of goods -/

namespace Inventory

def declaration : TableDeclaration where
  name := "Inventory"
  fields := [⟨"label", "string"⟩, ⟨"owner", "address"⟩, ⟨"count", "uint32"⟩, ⟨"item", "bytes32"⟩,
    ⟨"tags", "bytes4[]"⟩, ⟨"active", "bool"⟩]
  key := ["item", "owner"]

def tagsField : Field := ⟨"tags", .ofKind "bytes4[]" (.array (.fixedBytes 4) none)⟩

def schema : Schema where
  name := "Inventory"
  fields := [⟨"label", .ofKind "string" .string⟩, ⟨"owner", .ofKind "address" .address⟩,
    ⟨"count", .ofKind "uint32" (.uint 32)⟩, ⟨"item", .ofKind "bytes32" (.fixedBytes 32)⟩,
    tagsField, ⟨"active", .ofKind "bool" .bool⟩]
  key := ["item", "owner"]
  offchain := false

theorem validate_declaration :
    SchemaRules.validate {} Registry.standard declaration = .ok schema :=
  rfl

end Inventory

/-! ## Planning -/

namespace Layout

variable {registry : Registry} {rules : SchemaRules} {declaration : TableDeclaration}
  {schema : Schema}

/--
Planning refuses a table without fields, and any other exactly when it lies above a limit.  Every
other table has its one layout under all limits.  In it each field has one position, which its name
leads to; no other name leads to any.
-/
theorem plan_places (reachable : registry.Reachable)
    (validated : rules.validate registry declaration = .ok schema) (limits : SchemaRules) :
    (plan limits schema = .error (.emptySchema schema.name) ↔ schema.fields = []) ∧
      ((∃ flaw, plan limits schema = .error (.layoutLimit schema.name flaw)) ↔
        schema.fields ≠ [] ∧ ∃ flaw, schema.Exceeds limits flaw) ∧
      (∀ fault, plan limits schema = .error fault → fault = .emptySchema schema.name ∨
        ∃ flaw, schema.Exceeds limits flaw ∧ fault = .layoutLimit schema.name flaw) ∧
      ∀ layout, plan limits schema = .ok layout →
        layout.Places schema ∧ layout.fields.Perm schema.fields ∧
          (layout.fields.map (·.name)).Nodup ∧
          (∀ field ∈ schema.fields, ∃ position, layout.position? field.name = some position ∧
            position ∈ layout.positions ∧ position.field = field ∧
            ∀ other ∈ layout.positions, other.field = field → other = position) ∧
          (∀ name, layout.position? name = none ↔ ∀ field ∈ schema.fields, field.name ≠ name) ∧
          ∀ other layout', plan other schema = .ok layout' → layout' = layout := by
  have sound := SchemaRules.sound_of_validate reachable.sound validated
  have planning := planning_plan sound limits
  refine ⟨?_, ?_, fun fault failed => ?_, fun layout accepted => ?_⟩
  · generalize plan limits schema = outcome at planning
    cases planning with
    | empty none => simp [none]
    | refused some exceeds => simp [some]
    | placed some below places => simp [some]
  · generalize plan limits schema = outcome at planning
    cases planning with
    | empty none => simp [none]
    | refused some exceeds => simpa [some] using ⟨_, exceeds⟩
    | placed some below places => simp [below]
  · rw [failed] at planning
    cases planning with
    | empty none => exact .inl rfl
    | refused some exceeds => exact .inr ⟨_, exceeds, rfl⟩
  · have stores := stores_of_plan reachable validated accepted
    rw [accepted] at planning
    cases planning with
    | placed some below places =>
        exact ⟨places, stores.fields, stores.sound.distinct,
          fun field => stores.existsUnique_position, fun name => stores.position?_eq_none_iff,
          fun other layout' => plan_eq_of_plan accepted⟩

/-- With both dynamic fields the goods keep their places; limits for one of them refuse the table. -/
theorem plan_places_inventory :
    (∃ layout, plan {} Inventory.schema = .ok layout ∧ layout.Places Inventory.schema ∧
        layout.position? "tags" = some (.dynamic ⟨Inventory.tagsField, 3, 1⟩)) ∧
      ∃ flaw, plan { maxDynamicFields := 1 } Inventory.schema =
        .error (.layoutLimit "Inventory" flaw) := by
  obtain ⟨-, -, -, placed⟩ := plan_places .standard Inventory.validate_declaration {}
  obtain ⟨-, exceeding, -, -⟩ :=
    plan_places .standard Inventory.validate_declaration { maxDynamicFields := 1 }
  refine ⟨⟨_, rfl, (placed _ rfl).1, rfl⟩, exceeding.mpr ⟨by decide, _, .dynamicFields ?_⟩⟩
  decide

end Layout

end PackedTables
