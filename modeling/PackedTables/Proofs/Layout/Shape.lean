import PackedTables.Layout.Word
import PackedTables.Proofs.Layout.Sound
import PackedTables.Proofs.Types.Shape

/-!
# Shapes of layouts

Layouts are compared slot by slot.  The words of a layout hold a number for each slot, in a place of
its own, so layouts of the same words have the same shapes.
-/

namespace PackedTables

def Field.shape (field : Field) : Kind := field.type.kind.shape

theorem Field.width?_eq_shape {field : Field} (sound : field.type.Sound) :
    field.width? = field.shape.width.fixed? := by
  rw [Field.width?_eq sound, Field.shape, sound.kind.width_shape]

/-- What the shape of a field does not tell and reading depends on, its name apart. -/
def Field.bounds (field : Field) : Nat × Option Nat :=
  (field.type.kind.limit, field.type.kind.count?)

/-- Layouts that look alike, slot by slot. -/
structure Layout.Agrees {viewType : Type} (view : Field → viewType) (first second : Layout) :
    Prop where
  key : (first.keySlots.map (·.field)).map view = (second.keySlots.map (·.field)).map view
  block : (first.fixedSlots.map (·.field)).map view = (second.fixedSlots.map (·.field)).map view
  payloads : (first.dynamicSlots.map (·.field)).map view =
    (second.dynamicSlots.map (·.field)).map view

namespace Layout.Agrees

variable {viewType otherType : Type} {view : Field → viewType} {other : Field → otherType}
  {first second : Layout}

theorem symm (agrees : first.Agrees view second) : second.Agrees view first :=
  ⟨agrees.key.symm, agrees.block.symm, agrees.payloads.symm⟩

/-- With the slots told apart by one view, another view is compared on all fields at once. -/
theorem prod (agrees : first.Agrees view second)
    (same : first.fields.map other = second.fields.map other) :
    first.Agrees (fun field => (view field, other field)) second := by
  have keys := congrArg List.length agrees.key
  have blocks := congrArg List.length agrees.block
  simp only [List.length_map] at keys blocks
  simp only [Layout.fields, Layout.valueFields, List.map_append] at same
  obtain ⟨key, values⟩ := List.append_inj same (by simp [keys])
  obtain ⟨block, payloads⟩ := List.append_inj values (by simp [blocks])
  refine ⟨?_, ?_, ?_⟩
  · rw [← List.zip_map', ← List.zip_map', agrees.key, key]
  · rw [← List.zip_map', ← List.zip_map', agrees.block, block]
  · rw [← List.zip_map', ← List.zip_map', agrees.payloads, payloads]

end Layout.Agrees

/-! ## Words -/

theorem Field.map_shape_eq {fields others : List Field} (sound : ∀ field ∈ fields, field.type.Sound)
    (sound' : ∀ field ∈ others, field.type.Sound)
    (same : fields.map (·.type.typeId) = others.map (·.type.typeId)) :
    fields.map Field.shape = others.map Field.shape := by
  induction fields generalizing others with
  | nil =>
      obtain rfl := List.map_eq_nil_iff.mp same.symm
      rfl
  | cons field fields ih =>
      obtain ⟨other, others, rfl, here, there⟩ := List.map_eq_cons_iff.mp same.symm
      obtain ⟨type, types⟩ := List.forall_mem_cons.mp sound
      obtain ⟨type', types'⟩ := List.forall_mem_cons.mp sound'
      rw [List.map_cons, List.map_cons, ih types types' there.symm, Field.shape, Field.shape,
        type.shape_eq type' here.symm]

namespace Layout

/-- A word keeps its counts and its entries when there are no more than it has room for. -/
theorem packWord_injective {length length' fixed fixed' dynamic dynamic' : Nat}
    {entries entries' : List UInt8} (counted : entries.length = fixed + dynamic)
    (counted' : entries'.length = fixed' + dynamic') (few : fixed + dynamic ≤ wordEntries)
    (few' : fixed' + dynamic' ≤ wordEntries)
    (same : packWord length fixed dynamic entries = packWord length' fixed' dynamic' entries') :
    fixed = fixed' ∧ dynamic = dynamic' ∧ entries = entries' := by
  unfold wordEntries at few few'
  rw [packWord, packWord] at same
  obtain ⟨front, padded⟩ := List.append_inj same (by simp)
  obtain ⟨-, counts⟩ := List.append_inj front (by simp)
  obtain ⟨fixedSame, dynamicSame⟩ := List.cons.inj counts
  have fixedCounts := congrArg UInt8.toNat fixedSame
  have dynamicCounts := congrArg UInt8.toNat (List.cons.inj dynamicSame).1
  simp only [UInt8.toNat_ofNat'] at fixedCounts dynamicCounts
  obtain rfl : fixed = fixed' := by omega
  obtain rfl : dynamic = dynamic' := by omega
  refine ⟨rfl, rfl, ?_⟩
  have whole : entries.take wordEntries = entries :=
    List.take_of_length_le (by unfold wordEntries; omega)
  have whole' : entries'.take wordEntries = entries' :=
    List.take_of_length_le (by unfold wordEntries; omega)
  rw [whole, whole', Bytes.padRight, Bytes.padRight] at padded
  exact (List.append_inj padded (counted.trans counted'.symm)).1

theorem agrees_of_words {first second : Layout} (sound : first.Sound) (sound' : second.Sound)
    (key : first.keySchema = second.keySchema) (value : first.valueSchema = second.valueSchema) :
    first.Agrees Field.shape second := by
  obtain ⟨-, -, keyEntries⟩ := packWord_injective (by simp) (by simp) sound.within.fewKeys
    sound'.within.fewKeys key
  obtain ⟨fixed, -, valueEntries⟩ := packWord_injective (by simp [valueFields])
    (by simp [valueFields]) sound.within.fewValues sound'.within.fewValues value
  have keyIds : (first.keySlots.map (·.field)).map (·.type.typeId) =
      (second.keySlots.map (·.field)).map (·.type.typeId) := by
    rw [List.map_map, List.map_map]
    exact keyEntries
  simp only [valueFields, List.map_append] at valueEntries
  obtain ⟨blockIds, payloadIds⟩ := List.append_inj valueEntries (by simpa using fixed)
  refine ⟨?_, ?_, ?_⟩
  · exact Field.map_shape_eq sound.keyTypes sound'.keyTypes keyIds
  · exact Field.map_shape_eq sound.blockTypes sound'.blockTypes blockIds
  · exact Field.map_shape_eq sound.payloadTypes sound'.payloadTypes payloadIds

end Layout

end PackedTables
