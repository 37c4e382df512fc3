import PackedTables.Bytes
import PackedTables.Layout.Basic
import PackedTables.Settings.Basic

/-!
# Planning layouts

Offsets are running sums of widths.  A layout is refused when it has more fields or a longer fixed
block than the rules allow; no rule allows more than the stored form can hold.
-/

namespace PackedTables

namespace Layout

/-- Key slots from an offset on, in the order of the key list. -/
def planKey (schema : Schema) : Nat → List String → Except Fault (List KeySlot)
  | _, [] => .ok []
  | offset, name :: rest =>
      match (schema.field? name).bind fun field => field.width?.map fun width => (field, width) with
      | none => .error (.unknownKeyField schema.name name)
      | some (field, width) =>
          match planKey schema (offset + width) rest with
          | .error fault => .error fault
          | .ok slots => .ok (⟨field, offset, width⟩ :: slots)

/-- Slots for the fields of fixed width, from a slot number and an offset on. -/
def planFixed : Nat → Nat → List Field → List FixedSlot
  | _, _, [] => []
  | slot, offset, field :: rest =>
      match field.width? with
      | some width => ⟨field, slot, offset, width⟩ :: planFixed (slot + 1) (offset + width) rest
      | none => planFixed slot offset rest

/-- Slots for the fields of variable width, from a slot number and an ordinal on. -/
def planDynamic : Nat → Nat → List Field → List DynamicSlot
  | _, _, [] => []
  | slot, ordinal, field :: rest =>
      match field.width? with
      | some _ => planDynamic slot ordinal rest
      | none => ⟨field, slot, ordinal⟩ :: planDynamic (slot + 1) (ordinal + 1) rest

def limitFlaw? (rules : SchemaRules) (layout : Layout) : Option LimitFlaw :=
  let keyLimit := min rules.maxKeyFields Limits.maxFields
  let valueLimit := min rules.maxValueFields Limits.maxFields
  let dynamicLimit := min rules.maxDynamicFields Limits.maxDynamicFields
  let staticLimit := min rules.maxStaticLength Limits.maxStaticLength
  let values := layout.fixedSlots.length + layout.dynamicSlots.length
  if keyLimit < layout.keySlots.length then some (.keyFields layout.keySlots.length keyLimit)
  else if valueLimit < values then some (.valueFields values valueLimit)
  else if dynamicLimit < layout.dynamicSlots.length then
    some (.dynamicFields layout.dynamicSlots.length dynamicLimit)
  else if staticLimit < layout.staticLength then
    some (.fixedBlock layout.staticLength staticLimit)
  else none

def plan (rules : SchemaRules) (schema : Schema) : Except Fault Layout :=
  if schema.fields.isEmpty then .error (.emptySchema schema.name)
  else
    match planKey schema 0 schema.key with
    | .error fault => .error fault
    | .ok keySlots =>
        let fixedSlots := planFixed 0 0 schema.valueFields
        let layout : Layout := {
          table := schema.name
          keySlots
          fixedSlots
          dynamicSlots := planDynamic fixedSlots.length 0 schema.valueFields
          keyLength := Bytes.joinedLength (keySlots.map (·.width))
          staticLength := Bytes.joinedLength (fixedSlots.map (·.width)) }
        match layout.limitFlaw? rules with
        | some flaw => .error (.layoutLimit schema.name flaw)
        | none => .ok layout

end Layout

end PackedTables
