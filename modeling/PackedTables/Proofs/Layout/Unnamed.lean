import PackedTables.Layout.Plan
import PackedTables.Layout.Word

/-!
# Layouts without the names of their types

A type keeps the name that it was asked for under.  No place, width or number of a layout depends on
it: a schema without the names of its types is planned as the schema is, and the layout words are
the same.
-/

namespace PackedTables

/-! ## Taking the names away -/

def FieldType.unnamed (type : FieldType) : FieldType := { type with name := "" }

/-- A field of its own name, its type of none. -/
def Field.unnamed (field : Field) : Field := { field with type := field.type.unnamed }

def Schema.unnamed (schema : Schema) : Schema :=
  { schema with fields := schema.fields.map Field.unnamed }

def KeySlot.unnamed (slot : KeySlot) : KeySlot := { slot with field := slot.field.unnamed }

def FixedSlot.unnamed (slot : FixedSlot) : FixedSlot := { slot with field := slot.field.unnamed }

def DynamicSlot.unnamed (slot : DynamicSlot) : DynamicSlot :=
  { slot with field := slot.field.unnamed }

def Layout.unnamed (layout : Layout) : Layout :=
  { layout with
    keySlots := layout.keySlots.map KeySlot.unnamed
    fixedSlots := layout.fixedSlots.map FixedSlot.unnamed
    dynamicSlots := layout.dynamicSlots.map DynamicSlot.unnamed }

def Position.unnamed : Position → Position
  | key slot => .key slot.unnamed
  | fixed slot => .fixed slot.unnamed
  | dynamic slot => .dynamic slot.unnamed

/-- A fault without the name of the type that it tells of. -/
def Fault.unnamed : Fault → Fault
  | dynamicKeyField table field _ => .dynamicKeyField table field ""
  | typeMismatch table field _ found => .typeMismatch table field "" found
  | fault => fault

/-! ## Schemas -/

namespace Schema

theorem find?_unnamed (fields : List Field) (name : String) :
    ((fields.map Field.unnamed).find? fun field => field.name == name) =
      (fields.find? fun field => field.name == name).map Field.unnamed :=
  List.find?_map

theorem field?_unnamed (schema : Schema) (name : String) :
    schema.unnamed.field? name = (schema.field? name).map Field.unnamed :=
  find?_unnamed schema.fields name

theorem valueFields_unnamed (schema : Schema) :
    schema.unnamed.valueFields = schema.valueFields.map Field.unnamed :=
  List.filter_map

end Schema

namespace Layout

/-! ## Planning -/

theorem planKey_unnamed (schema : Schema) (offset : Nat) (names : List String) :
    planKey schema.unnamed offset names =
      (planKey schema offset names).map (List.map KeySlot.unnamed) := by
  induction names generalizing offset with
  | nil => rfl
  | cons name rest ih =>
      unfold planKey
      rw [schema.field?_unnamed]
      cases schema.field? name with
      | none => rfl
      | some field =>
          have sized : field.unnamed.width? = field.width? := rfl
          simp only [Option.map_some, Option.bind_some, sized]
          cases field.width? with
          | none => rfl
          | some width =>
              simp only [Option.map_some, ih]
              cases planKey schema (offset + width) rest <;> rfl

theorem planFixed_unnamed (slot offset : Nat) (fields : List Field) :
    planFixed slot offset (fields.map Field.unnamed) =
      (planFixed slot offset fields).map FixedSlot.unnamed := by
  induction fields generalizing slot offset with
  | nil => rfl
  | cons field rest ih =>
      have sized : field.unnamed.width? = field.width? := rfl
      rw [List.map_cons, planFixed, planFixed, sized]
      cases field.width? with
      | none => exact ih slot offset
      | some width => exact congrArg _ (ih (slot + 1) (offset + width))

theorem planDynamic_unnamed (slot ordinal : Nat) (fields : List Field) :
    planDynamic slot ordinal (fields.map Field.unnamed) =
      (planDynamic slot ordinal fields).map DynamicSlot.unnamed := by
  induction fields generalizing slot ordinal with
  | nil => rfl
  | cons field rest ih =>
      have sized : field.unnamed.width? = field.width? := rfl
      rw [List.map_cons, planDynamic, planDynamic, sized]
      cases field.width? with
      | none => exact congrArg _ (ih (slot + 1) (ordinal + 1))
      | some width => exact ih slot ordinal

theorem limitFlaw?_unnamed (rules : SchemaRules) (layout : Layout) :
    layout.unnamed.limitFlaw? rules = layout.limitFlaw? rules := by
  have keys : layout.unnamed.keySlots.length = layout.keySlots.length := List.length_map _
  have fixed : layout.unnamed.fixedSlots.length = layout.fixedSlots.length := List.length_map _
  have dynamic : layout.unnamed.dynamicSlots.length = layout.dynamicSlots.length :=
    List.length_map _
  have block : layout.unnamed.staticLength = layout.staticLength := rfl
  unfold limitFlaw?
  rw [keys, fixed, dynamic, block]

/-- The layout of a schema with given key slots, whatever the limits. -/
def ofKey (schema : Schema) (keySlots : List KeySlot) : Layout where
  table := schema.name
  keySlots := keySlots
  fixedSlots := planFixed 0 0 schema.valueFields
  dynamicSlots := planDynamic (planFixed 0 0 schema.valueFields).length 0 schema.valueFields
  keyLength := Bytes.joinedLength (keySlots.map (·.width))
  staticLength := Bytes.joinedLength ((planFixed 0 0 schema.valueFields).map (·.width))

def checkLimits (rules : SchemaRules) (layout : Layout) : Except Fault Layout :=
  match layout.limitFlaw? rules with
  | some flaw => .error (.layoutLimit layout.table flaw)
  | none => .ok layout

/-- Planning places the key, and all else follows. -/
theorem plan_eq (rules : SchemaRules) (schema : Schema) :
    plan rules schema =
      if schema.fields.isEmpty then .error (.emptySchema schema.name)
      else planKey schema 0 schema.key >>= fun keySlots => checkLimits rules (ofKey schema keySlots) := by
  unfold plan
  split
  · rfl
  · cases planKey schema 0 schema.key with
    | error fault => rfl
    | ok keySlots => rfl

theorem ofKey_unnamed (schema : Schema) (keySlots : List KeySlot) :
    ofKey schema.unnamed (keySlots.map KeySlot.unnamed) = (ofKey schema keySlots).unnamed := by
  rw [ofKey, schema.valueFields_unnamed, planFixed_unnamed, List.length_map, planDynamic_unnamed,
    List.map_map, List.map_map]
  rfl

theorem checkLimits_unnamed (rules : SchemaRules) (layout : Layout) :
    checkLimits rules layout.unnamed = (checkLimits rules layout).map unnamed := by
  unfold checkLimits
  rw [limitFlaw?_unnamed]
  cases layout.limitFlaw? rules with
  | some flaw => rfl
  | none => rfl

theorem plan_unnamed (rules : SchemaRules) (schema : Schema) :
    plan rules schema.unnamed = (plan rules schema).map unnamed := by
  have declared : schema.unnamed.fields.isEmpty = schema.fields.isEmpty := List.isEmpty_map
  have keys : planKey schema.unnamed 0 schema.unnamed.key =
      (planKey schema 0 schema.key).map (List.map KeySlot.unnamed) :=
    planKey_unnamed schema 0 schema.key
  rw [plan_eq, plan_eq, declared, keys]
  cases schema.fields.isEmpty with
  | true => rfl
  | false =>
      cases planKey schema 0 schema.key with
      | error fault => rfl
      | ok keySlots =>
          have limited := checkLimits_unnamed rules (ofKey schema keySlots)
          rw [← ofKey_unnamed] at limited
          exact limited

/-! ## Words -/

theorem fieldLayout_unnamed (layout : Layout) : layout.unnamed.fieldLayout = layout.fieldLayout := by
  simp only [fieldLayout, unnamed, List.length_map, List.map_map]
  rfl

theorem keySchema_unnamed (layout : Layout) : layout.unnamed.keySchema = layout.keySchema := by
  simp only [keySchema, unnamed, List.length_map, List.map_map]
  rfl

theorem valueSchema_unnamed (layout : Layout) : layout.unnamed.valueSchema = layout.valueSchema := by
  simp only [valueSchema, valueFields, unnamed, List.length_map, List.map_map, List.map_append]
  rfl

/-! ## Positions -/

theorem position?_unnamed (layout : Layout) (name : String) :
    layout.unnamed.position? name = (layout.position? name).map Position.unnamed := by
  have keys : (layout.unnamed.keySlots.find? fun slot => slot.field.name == name) =
      (layout.keySlots.find? fun slot => slot.field.name == name).map KeySlot.unnamed :=
    List.find?_map
  have fixed : (layout.unnamed.fixedSlots.find? fun slot => slot.field.name == name) =
      (layout.fixedSlots.find? fun slot => slot.field.name == name).map FixedSlot.unnamed :=
    List.find?_map
  have dynamic : (layout.unnamed.dynamicSlots.find? fun slot => slot.field.name == name) =
      (layout.dynamicSlots.find? fun slot => slot.field.name == name).map DynamicSlot.unnamed :=
    List.find?_map
  unfold position?
  rw [keys, fixed, dynamic]
  cases layout.keySlots.find? fun slot => slot.field.name == name with
  | some slot => rfl
  | none =>
      cases layout.fixedSlots.find? fun slot => slot.field.name == name with
      | some slot => rfl
      | none =>
          cases layout.dynamicSlots.find? fun slot => slot.field.name == name with
          | some slot => rfl
          | none => rfl

end Layout

end PackedTables
