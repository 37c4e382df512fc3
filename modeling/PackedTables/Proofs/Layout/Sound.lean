import Mathlib.Data.List.Nodup
import PackedTables.Layout.Plan
import PackedTables.Proofs.Bytes.Pieces
import PackedTables.Proofs.Schema.Sound

/-!
# Sound layouts

A planned layout holds each field of its schema once.  Key fields and fixed fields lie in runs
without gaps, each as wide as its type, and no count or length exceeds what the stored form holds.
-/

namespace PackedTables

theorem Field.width?_eq {field : Field} (sound : field.type.Sound) :
    field.width? = field.type.kind.width.fixed? := by
  rw [Field.width?, sound.width_eq]

theorem Field.width?_eq_some_iff {field : Field} (sound : field.type.Sound) {width : Nat} :
    field.width? = some width ↔ field.type.kind.width = .fixed width := by
  rw [Field.width?_eq sound]
  cases field.type.kind.width <;> simp [Width.fixed?]

theorem Field.width?_eq_none_iff {field : Field} (sound : field.type.Sound) :
    field.width? = none ↔ field.type.kind.width = .varying := by
  rw [Field.width?_eq sound]
  cases field.type.kind.width <;> simp [Width.fixed?]

theorem Field.scalar_of_width? {field : Field} (sound : field.type.Sound) {width : Nat}
    (sized : field.width? = some width) : field.type.kind.Scalar :=
  sound.kind.scalar_of_fixed ((Field.width?_eq_some_iff sound).mp sized)

/-- A field and the stretch of bytes that it takes. -/
structure Span where
  field : Field
  offset : Nat
  width : Nat

def KeySlot.span (slot : KeySlot) : Span := ⟨slot.field, slot.offset, slot.width⟩

def FixedSlot.span (slot : FixedSlot) : Span := ⟨slot.field, slot.offset, slot.width⟩

/-- Stretches one after another, from one place to another, each as wide as its field. -/
inductive Span.Run : Nat → List Span → Nat → Prop
  | nil (start : Nat) : Run start [] start
  | cons {field : Field} {start width stop : Nat} {rest : List Span} :
      field.width? = some width → Run (start + width) rest stop →
      Run start (⟨field, start, width⟩ :: rest) stop

theorem Span.Run.sized {start stop : Nat} {spans : List Span} (run : Span.Run start spans stop) :
    ∀ span ∈ spans, span.field.width? = some span.width := by
  induction run with
  | nil => simp
  | cons here run ih => exact List.forall_mem_cons.mpr ⟨here, ih⟩

namespace Layout

def keySpans (layout : Layout) : List Span := layout.keySlots.map KeySlot.span

def fixedSpans (layout : Layout) : List Span := layout.fixedSlots.map FixedSlot.span

theorem keySpans_fields (layout : Layout) :
    layout.keySpans.map (·.field) = layout.keySlots.map (·.field) := by
  rw [keySpans, List.map_map]
  rfl

theorem fixedSpans_fields (layout : Layout) :
    layout.fixedSpans.map (·.field) = layout.fixedSlots.map (·.field) := by
  rw [fixedSpans, List.map_map]
  rfl

/-- All fields, those of the key first, then those of the value slots. -/
def fields (layout : Layout) : List Field :=
  layout.keySlots.map (·.field) ++ layout.valueFields

/-- The counts and lengths that the stored form holds. -/
structure Within (layout : Layout) : Prop where
  fewKeys : layout.keySlots.length ≤ Limits.maxFields
  fewValues : layout.fixedSlots.length + layout.dynamicSlots.length ≤ Limits.maxFields
  fewDynamic : layout.dynamicSlots.length ≤ Limits.maxDynamicFields
  shortBlock : layout.staticLength ≤ Limits.maxStaticLength

structure Sound (layout : Layout) : Prop where
  within : layout.Within
  keyRun : Span.Run 0 layout.keySpans layout.keyLength
  fixedRun : Span.Run 0 layout.fixedSpans layout.staticLength
  varying : ∀ slot ∈ layout.dynamicSlots, slot.field.width? = none
  ordinals : layout.dynamicSlots.map (·.ordinal) = List.range layout.dynamicSlots.length
  distinct : (layout.fields.map (·.name)).Nodup
  types : ∀ field ∈ layout.fields, field.type.Sound

namespace Sound

variable {layout : Layout} (sound : layout.Sound)
include sound

theorem keyTypes : ∀ field ∈ layout.keySlots.map (·.field), field.type.Sound :=
  fun field member => sound.types field (List.mem_append_left _ member)

theorem blockTypes : ∀ field ∈ layout.fixedSlots.map (·.field), field.type.Sound :=
  fun field member => sound.types field (List.mem_append_right _ (List.mem_append_left _ member))

theorem payloadTypes : ∀ field ∈ layout.dynamicSlots.map (·.field), field.type.Sound :=
  fun field member => sound.types field (List.mem_append_right _ (List.mem_append_right _ member))

theorem keyType {slot : KeySlot} (member : slot ∈ layout.keySlots) : slot.field.type.Sound :=
  sound.keyTypes _ (List.mem_map_of_mem member)

theorem fixedType {slot : FixedSlot} (member : slot ∈ layout.fixedSlots) : slot.field.type.Sound :=
  sound.blockTypes _ (List.mem_map_of_mem member)

theorem dynamicType {slot : DynamicSlot} (member : slot ∈ layout.dynamicSlots) :
    slot.field.type.Sound :=
  sound.payloadTypes _ (List.mem_map_of_mem member)

theorem keyWidth {slot : KeySlot} (member : slot ∈ layout.keySlots) :
    slot.field.width? = some slot.width :=
  sound.keyRun.sized _ (List.mem_map_of_mem member)

theorem fixedWidth {slot : FixedSlot} (member : slot ∈ layout.fixedSlots) :
    slot.field.width? = some slot.width :=
  sound.fixedRun.sized _ (List.mem_map_of_mem member)

end Sound

/-! ## What planning places -/

theorem planKey_eq_ok {schema : Schema} {offset : Nat} {names : List String}
    {slots : List KeySlot} (planned : planKey schema offset names = .ok slots) :
    slots.map (fun slot => some slot.field) = names.map schema.field? ∧
      Span.Run offset (slots.map KeySlot.span)
        (offset + Bytes.joinedLength (slots.map (·.width))) := by
  induction names generalizing offset slots with
  | nil =>
      obtain rfl := Except.ok.inj planned
      exact ⟨rfl, .nil offset⟩
  | cons name rest ih =>
      unfold planKey at planned
      split at planned
      · cases planned
      · rename_i field width found
        split at planned
        · cases planned
        · rename_i others there
          obtain rfl := Except.ok.inj planned
          obtain ⟨fields, run⟩ := ih there
          obtain ⟨field', named, sized⟩ := Option.bind_eq_some_iff.mp found
          obtain ⟨width', exact, same⟩ := Option.map_eq_some_iff.mp sized
          obtain ⟨rfl, rfl⟩ := Prod.mk.inj same
          refine ⟨by rw [List.map_cons, List.map_cons, fields, named], .cons exact ?_⟩
          rwa [Nat.add_assoc] at run

theorem planFixed_fields (slot offset : Nat) (fields : List Field) :
    (planFixed slot offset fields).map (·.field) =
      fields.filter fun field => field.width?.isSome := by
  induction fields generalizing slot offset with
  | nil => rfl
  | cons field rest ih =>
      unfold planFixed
      cases width : field.width? with
      | none => rw [ih, List.filter_cons_of_neg (by simp [width])]
      | some width => rw [List.map_cons, ih, List.filter_cons_of_pos (by simp [width])]

theorem planFixed_run (slot offset : Nat) (fields : List Field) :
    Span.Run offset ((planFixed slot offset fields).map FixedSlot.span)
      (offset + Bytes.joinedLength ((planFixed slot offset fields).map (·.width))) := by
  induction fields generalizing slot offset with
  | nil => exact .nil offset
  | cons field rest ih =>
      unfold planFixed
      cases width : field.width? with
      | none => exact ih slot offset
      | some count =>
          have run := ih (slot + 1) (offset + count)
          rw [Nat.add_assoc] at run
          exact .cons width run

theorem planDynamic_fields (slot ordinal : Nat) (fields : List Field) :
    (planDynamic slot ordinal fields).map (·.field) =
      fields.filter fun field => !field.width?.isSome := by
  induction fields generalizing slot ordinal with
  | nil => rfl
  | cons field rest ih =>
      unfold planDynamic
      cases width : field.width? with
      | none => rw [List.map_cons, ih, List.filter_cons_of_pos (by simp [width])]
      | some width => rw [ih, List.filter_cons_of_neg (by simp [width])]

theorem planDynamic_ordinals (slot ordinal : Nat) (fields : List Field) :
    (planDynamic slot ordinal fields).map (·.ordinal) =
      List.range' ordinal (planDynamic slot ordinal fields).length := by
  induction fields generalizing slot ordinal with
  | nil => rfl
  | cons field rest ih =>
      unfold planDynamic
      cases field.width? with
      | none => rw [List.map_cons, ih, List.length_cons, List.range'_succ]
      | some width => exact ih slot ordinal

/-! ## What planning accepts -/

variable {limits : SchemaRules} {schema : Schema} {layout : Layout}

theorem within_of_limitFlaw? (flawless : layout.limitFlaw? limits = none) : layout.Within := by
  unfold limitFlaw? at flawless
  simp only at flawless
  split at flawless
  · cases flawless
  · split at flawless
    · cases flawless
    · split at flawless
      · cases flawless
      · split at flawless
        · cases flawless
        · exact ⟨by omega, by omega, by omega, by omega⟩

/-- The parts of a layout, as planning works them out. -/
structure Planned (limits : SchemaRules) (schema : Schema) (layout : Layout) : Prop where
  nonempty : schema.fields ≠ []
  table : layout.table = schema.name
  key : planKey schema 0 schema.key = .ok layout.keySlots
  fixed : layout.fixedSlots = planFixed 0 0 schema.valueFields
  dynamic : layout.dynamicSlots = planDynamic layout.fixedSlots.length 0 schema.valueFields
  keyLength : layout.keyLength = Bytes.joinedLength (layout.keySlots.map (·.width))
  staticLength : layout.staticLength = Bytes.joinedLength (layout.fixedSlots.map (·.width))
  flawless : layout.limitFlaw? limits = none

theorem planned_of_plan (accepted : plan limits schema = .ok layout) :
    layout.Planned limits schema := by
  unfold plan at accepted
  split at accepted
  · cases accepted
  · rename_i some
    split at accepted
    · cases accepted
    · rename_i keySlots key
      simp only at accepted
      split at accepted
      · cases accepted
      · rename_i flawless
        obtain rfl := Except.ok.inj accepted
        exact ⟨by simpa using some, rfl, key, rfl, rfl, rfl, rfl, flawless⟩

namespace Planned

theorem valueFields_perm (planned : layout.Planned limits schema) :
    layout.valueFields.Perm schema.valueFields := by
  rw [valueFields, planned.dynamic, planned.fixed, planFixed_fields, planDynamic_fields]
  exact List.filter_append_perm _ _

theorem keyFields (planned : layout.Planned limits schema) :
    layout.keySlots.map (fun slot => some slot.field) = schema.key.map schema.field? :=
  (planKey_eq_ok planned.key).1

theorem keyNames (planned : layout.Planned limits schema) :
    layout.keySlots.map (·.field.name) = schema.key := by
  have fields := planned.keyFields
  generalize layout.keySlots = slots at fields
  generalize schema.key = names at fields
  induction slots generalizing names with
  | nil =>
      cases names with
      | nil => rfl
      | cons name rest => cases fields
  | cons slot rest ih =>
      cases names with
      | nil => cases fields
      | cons name others =>
          obtain ⟨here, there⟩ := List.cons.inj fields
          have named : slot.field.name = name := by simpa using List.find?_some here.symm
          rw [List.map_cons, ih others there, named]

theorem keyFields_perm (planned : layout.Planned limits schema) (sound : schema.Sound) :
    (layout.keySlots.map (·.field)).Perm
      (schema.fields.filter fun field => schema.isKey field.name) := by
  have names := planned.keyNames
  have distinctKey : (layout.keySlots.map (·.field)).Nodup := by
    apply List.Nodup.of_map (fun field => field.name)
    rw [List.map_map]
    exact names.symm ▸ sound.keyDistinct
  have distinctFields : schema.fields.Nodup := List.Nodup.of_map _ sound.distinct
  apply (List.perm_ext_iff_of_nodup distinctKey (distinctFields.filter _)).mpr
  intro field
  rw [List.mem_filter, Schema.isKey, List.contains_iff_mem]
  constructor
  · intro member
    obtain ⟨slot, inSlots, rfl⟩ := List.mem_map.mp member
    have found : some slot.field ∈ schema.key.map schema.field? :=
      planned.keyFields ▸ List.mem_map_of_mem inSlots
    obtain ⟨name, inKey, same⟩ := List.mem_map.mp found
    obtain ⟨declared, rfl⟩ := sound.field?_eq_some_iff.mp same
    exact ⟨declared, inKey⟩
  · rintro ⟨declared, inKey⟩
    have found := sound.field?_eq_some_iff.mpr ⟨declared, rfl⟩
    have listed : some field ∈ schema.key.map schema.field? :=
      List.mem_map.mpr ⟨field.name, inKey, found⟩
    rw [← planned.keyFields] at listed
    obtain ⟨slot, inSlots, same⟩ := List.mem_map.mp listed
    exact List.mem_map.mpr ⟨slot, inSlots, Option.some.inj same⟩

/-- A layout holds the fields of its schema, each of them once. -/
theorem fields_perm (planned : layout.Planned limits schema) (sound : schema.Sound) :
    layout.fields.Perm schema.fields :=
  ((planned.keyFields_perm sound).append planned.valueFields_perm).trans
    (List.filter_append_perm _ _)

theorem sound (planned : layout.Planned limits schema) (sound : schema.Sound) : layout.Sound where
  within := within_of_limitFlaw? planned.flawless
  keyRun := by
    have run := (planKey_eq_ok planned.key).2
    rwa [Nat.zero_add, ← planned.keyLength] at run
  fixedRun := by
    have run := planFixed_run 0 0 schema.valueFields
    rwa [Nat.zero_add, ← planned.fixed, ← planned.staticLength] at run
  varying := by
    intro slot member
    have inFields : slot.field ∈ layout.dynamicSlots.map (·.field) := List.mem_map_of_mem member
    rw [planned.dynamic, planDynamic_fields] at inFields
    simpa using (List.mem_filter.mp inFields).2
  ordinals := by
    rw [planned.dynamic, planDynamic_ordinals, List.range_eq_range']
  distinct := ((planned.fields_perm sound).map _).nodup_iff.mpr sound.distinct
  types := fun field member => sound.types field ((planned.fields_perm sound).mem_iff.mp member)

end Planned

/-- A layout that was planned for a schema that passed its checks. -/
structure Stores (layout : Layout) (schema : Schema) : Prop where
  schemaSound : schema.Sound
  sound : layout.Sound
  fields : layout.fields.Perm schema.fields
  keyNames : layout.keySlots.map (·.field.name) = schema.key
  table : layout.table = schema.name

theorem stores_of_plan {registry : Registry} {rules : SchemaRules} {declaration : TableDeclaration}
    (reachable : registry.Reachable) (validated : rules.validate registry declaration = .ok schema)
    (accepted : plan limits schema = .ok layout) : layout.Stores schema := by
  have schemaSound := SchemaRules.sound_of_validate reachable.sound validated
  have planned := planned_of_plan accepted
  exact ⟨schemaSound, planned.sound schemaSound, planned.fields_perm schemaSound, planned.keyNames,
    planned.table⟩

end Layout

end PackedTables
