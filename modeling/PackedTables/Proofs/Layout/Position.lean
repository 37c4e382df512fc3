import PackedTables.Proofs.Layout.Sound

/-!
# Positions

The positions of a layout stand in the order of its fields.  A name leads to the position of the
field so named, and a position of variable width is numbered by its place among its kind.
-/

namespace PackedTables

def Position.field : Position → Field
  | key slot => slot.field
  | fixed slot => slot.field
  | dynamic slot => slot.field

namespace Layout

def positions (layout : Layout) : List Position :=
  layout.keySlots.map .key ++ layout.fixedSlots.map .fixed ++ layout.dynamicSlots.map .dynamic

variable {layout : Layout} {name : String}

theorem positions_fields (layout : Layout) :
    layout.positions.map Position.field = layout.fields := by
  rw [positions, List.map_append, List.map_append, List.map_map, List.map_map, List.map_map,
    List.append_assoc]
  rfl

theorem mem_positions {position : Position} :
    position ∈ layout.positions ↔ (∃ slot ∈ layout.keySlots, .key slot = position) ∨
      (∃ slot ∈ layout.fixedSlots, .fixed slot = position) ∨
        ∃ slot ∈ layout.dynamicSlots, .dynamic slot = position := by
  rw [positions, List.append_assoc, List.mem_append, List.mem_append, List.mem_map, List.mem_map,
    List.mem_map]

theorem position?_eq_find? (layout : Layout) (name : String) :
    layout.position? name =
      layout.positions.find? fun position => position.field.name == name := by
  rw [positions, List.find?_append, List.find?_append, List.find?_map, List.find?_map,
    List.find?_map, position?]
  unfold Function.comp Position.field
  cases layout.keySlots.find? fun slot => slot.field.name == name with
  | some slot => rfl
  | none =>
      cases layout.fixedSlots.find? fun slot => slot.field.name == name with
      | some slot => rfl
      | none => rfl

theorem Sound.position?_eq_some_iff (sound : layout.Sound) {position : Position} :
    layout.position? name = some position ↔
      position ∈ layout.positions ∧ position.field.name = name := by
  have distinct := sound.distinct
  rw [← positions_fields, List.map_map] at distinct
  rw [position?_eq_find?]
  exact find?_named_eq_some_iff distinct

theorem position?_eq_none_iff :
    layout.position? name = none ↔ ∀ field ∈ layout.fields, field.name ≠ name := by
  rw [position?_eq_find?, ← positions_fields, List.find?_eq_none, List.forall_mem_map]
  simp

theorem Sound.ordinal_lt (sound : layout.Sound) {slot : DynamicSlot}
    (member : slot ∈ layout.dynamicSlots) : slot.ordinal < layout.dynamicSlots.length := by
  have listed : slot.ordinal ∈ layout.dynamicSlots.map (·.ordinal) := List.mem_map_of_mem member
  rw [sound.ordinals] at listed
  exact List.mem_range.mp listed

/-- Fields of variable width are numbered in order. -/
theorem Sound.ordinal_eq (sound : layout.Sound) {place : Nat} {slot : DynamicSlot}
    (here : layout.dynamicSlots[place]? = some slot) : slot.ordinal = place := by
  obtain ⟨inside, rfl⟩ := List.getElem?_eq_some_iff.mp here
  have ordinals := congrArg (fun numbers => numbers[place]?) sound.ordinals
  simpa [inside] using ordinals

end Layout

end PackedTables
