import PackedTables.Proofs.Record.Transfer

/-!
# Layouts of one format

Layouts with the same schema words have the same slots in the same places: only names, the ranges of
enumerations and the counts of arrays may differ.  So a record that both layouts read holds the same
cells under both.
-/

namespace PackedTables

/-! ## Places -/

def Span.place (span : Span) : Nat × Nat := (span.offset, span.width)

/-- The widths of a run place its stretches and end it. -/
theorem Span.Run.places_eq {start stop stop' : Nat} {spans others : List Span}
    (run : Span.Run start spans stop) (run' : Span.Run start others stop')
    (widths : spans.map (·.field.width?) = others.map (·.field.width?)) :
    spans.map Span.place = others.map Span.place ∧ stop = stop' := by
  induction run generalizing others stop' with
  | nil start =>
      obtain rfl := List.map_eq_nil_iff.mp widths.symm
      cases run'
      exact ⟨rfl, rfl⟩
  | @cons field start width stop spans sized run ih =>
      obtain ⟨other, others, rfl, here, there⟩ := List.map_eq_cons_iff.mp widths.symm
      cases run' with
      | @cons field' _ width' _ _ sized' run' =>
          obtain rfl : width' = width :=
            Option.some.inj (sized'.symm.trans (here.trans sized))
          obtain ⟨places, stops⟩ := ih run' there.symm
          exact ⟨congrArg (List.cons (start, width')) places, stops⟩

theorem Field.map_width?_eq {fields others : List Field}
    (sound : ∀ field ∈ fields, field.type.Sound) (sound' : ∀ field ∈ others, field.type.Sound)
    (same : fields.map Field.shape = others.map Field.shape) :
    fields.map Field.width? = others.map Field.width? := by
  have shaped : ∀ fields : List Field, (∀ field ∈ fields, field.type.Sound) →
      fields.map Field.width? = (fields.map Field.shape).map (·.width.fixed?) := by
    intro fields sound
    rw [List.map_map]
    exact List.map_congr_left fun field member => Field.width?_eq_shape (sound field member)
  rw [shaped fields sound, shaped others sound', same]

namespace Layout

variable {first second : Layout}

/-- As many slots, of the same shapes, in the same places. -/
structure SameFormat (first second : Layout) : Prop where
  shapes : first.Agrees Field.shape second
  key : first.keySlots.map (fun slot => (slot.offset, slot.width)) =
    second.keySlots.map fun slot => (slot.offset, slot.width)
  block : first.fixedSlots.map (fun slot => (slot.offset, slot.width)) =
    second.fixedSlots.map fun slot => (slot.offset, slot.width)
  payloads : first.dynamicSlots.map (·.ordinal) = second.dynamicSlots.map (·.ordinal)
  keyLength : first.keyLength = second.keyLength
  staticLength : first.staticLength = second.staticLength
  fieldLayout : first.fieldLayout = second.fieldLayout

theorem sameFormat_of_agrees (sound : first.Sound) (sound' : second.Sound)
    (agrees : first.Agrees Field.shape second) : first.SameFormat second := by
  have keyWidths := Field.map_width?_eq sound.keyTypes sound'.keyTypes agrees.key
  rw [← keySpans_fields, ← keySpans_fields, List.map_map, List.map_map] at keyWidths
  have blockWidths := Field.map_width?_eq sound.blockTypes sound'.blockTypes agrees.block
  rw [← fixedSpans_fields, ← fixedSpans_fields, List.map_map, List.map_map] at blockWidths
  obtain ⟨keyPlaces, keyLength⟩ := sound.keyRun.places_eq sound'.keyRun keyWidths
  obtain ⟨blockPlaces, staticLength⟩ := sound.fixedRun.places_eq sound'.fixedRun blockWidths
  rw [keySpans, keySpans, List.map_map, List.map_map] at keyPlaces
  rw [fixedSpans, fixedSpans, List.map_map, List.map_map] at blockPlaces
  have fixedCount := congrArg List.length blockPlaces
  have dynamicCount := congrArg List.length agrees.payloads
  simp only [List.length_map] at fixedCount dynamicCount
  have entries := congrArg (List.map fun place => UInt8.ofNat place.2) blockPlaces
  rw [List.map_map, List.map_map] at entries
  refine ⟨agrees, keyPlaces, blockPlaces, ?_, keyLength, staticLength, ?_⟩
  · rw [sound.ordinals, sound'.ordinals, dynamicCount]
  · rw [fieldLayout, fieldLayout, staticLength, fixedCount, dynamicCount]
    exact congrArg (packWord _ _ _) entries

end Layout

/-! ## Cells -/

/-- A row that is read has a cell for each field. -/
theorem CodecRules.exists_cells_of_decode {codec : CodecRules} {layout : Layout} {record : Record}
    {row : Row} (sound : layout.Sound) (read : codec.decode layout record = .ok row) :
    ∃ cells : List Cell, layout.fields.map (fun field => row.get? field.name) = cells.map some := by
  obtain ⟨filling, fits, -, -, rfl⟩ := (decode_eq_ok_iff sound).mp read
  refine ⟨filling.all.map (·.cell), ?_⟩
  rw [fits.cells_eq sound, List.map_map]
  rfl

/-! ## Two tables of one format -/

namespace Door

/-- The mood of a door is an enumeration, and it has two hinges. -/
def declaration : TableDeclaration where
  name := "Door"
  fields := [⟨"number", "uint16"⟩, ⟨"mood", "Mood"⟩, ⟨"hinges", "Mood[2]"⟩]
  key := ["number"]

def registry : Registry :=
  Registry.standard.add (.ofKind "Mood" (.enumeration "Mood" 3))

theorem reachable : registry.Reachable := by
  have registered : Registry.standard.registerEnum ⟨"Mood", ["calm", "glad", "wild"]⟩ =
      .ok registry := rfl
  exact .enumeration .standard registered

def numberField : Field := ⟨"number", .ofKind "uint16" (.uint 16)⟩

def moodField : Field := ⟨"mood", .ofKind "Mood" (.enumeration "Mood" 3)⟩

def hingesField : Field :=
  ⟨"hinges", .ofKind "Mood[2]" (.array (.enumeration "Mood" 3) (some 2))⟩

def schema : Schema := ⟨"Door", [numberField, moodField, hingesField], ["number"], false⟩

def layout : Layout where
  table := "Door"
  keySlots := [⟨numberField, 0, 2⟩]
  fixedSlots := [⟨moodField, 0, 0, 1⟩]
  dynamicSlots := [⟨hingesField, 1, 0⟩]
  keyLength := 2
  staticLength := 1

theorem validate_declaration : SchemaRules.validate {} registry declaration = .ok schema :=
  rfl

theorem plan_schema : Layout.plan {} schema = .ok layout := rfl

def record : Record where
  key := [1, 4]
  value := [2] ++ Lengths.pack [2] ++ [0, 1]

theorem decode_record :
    CodecRules.decode {} layout record =
      .ok (Row.ofList [("hinges", .array [.uint 0, .uint 1]), ("mood", .uint 2),
        ("number", .uint 260)]) := by
  decide +kernel

end Door

namespace Gate

/-- The mood of a gate is a number, and it has any number of hinges. -/
def declaration : TableDeclaration where
  name := "Gate"
  fields := [⟨"hinges", "uint8[]"⟩, ⟨"mood", "uint8"⟩, ⟨"place", "uint16"⟩]
  key := ["place"]

def placeField : Field := ⟨"place", .ofKind "uint16" (.uint 16)⟩

def moodField : Field := ⟨"mood", .ofKind "uint8" (.uint 8)⟩

def hingesField : Field := ⟨"hinges", .ofKind "uint8[]" (.array (.uint 8) none)⟩

def schema : Schema := ⟨"Gate", [hingesField, moodField, placeField], ["place"], false⟩

def layout : Layout where
  table := "Gate"
  keySlots := [⟨placeField, 0, 2⟩]
  fixedSlots := [⟨moodField, 0, 0, 1⟩]
  dynamicSlots := [⟨hingesField, 1, 0⟩]
  keyLength := 2
  staticLength := 1

theorem validate_declaration :
    SchemaRules.validate {} Registry.standard declaration = .ok schema :=
  rfl

theorem plan_schema : Layout.plan {} schema = .ok layout := rfl

theorem decode_record :
    CodecRules.decode {} layout Door.record =
      .ok (Row.ofList [("hinges", .array [.uint 0, .uint 1]), ("mood", .uint 2),
        ("place", .uint 260)]) := by
  decide +kernel

end Gate

/-! ## Planned layouts -/

namespace Layout

variable {registry registry' : Registry} {rules rules' limits limits' : SchemaRules}
  {declaration declaration' : TableDeclaration} {schema schema' : Schema} {first second : Layout}

/--
Layouts with the same schema words have the same format.  Each record that is read under both of
them holds the same cells under both, slot by slot.
-/
theorem sameFormat_of_words (reachable : registry.Reachable) (reachable' : registry'.Reachable)
    (validated : rules.validate registry declaration = .ok schema)
    (validated' : rules'.validate registry' declaration' = .ok schema')
    (planned : plan limits schema = .ok first) (planned' : plan limits' schema' = .ok second)
    (key : first.keySchema = second.keySchema) (value : first.valueSchema = second.valueSchema) :
    first.SameFormat second ∧ ∀ (codec : CodecRules) record row other,
      codec.decode first record = .ok row → codec.decode second record = .ok other →
        ∃ cells : List Cell, first.fields.map (fun field => row.get? field.name) = cells.map some ∧
          second.fields.map (fun field => other.get? field.name) = cells.map some := by
  have sound := (stores_of_plan reachable validated planned).sound
  have sound' := (stores_of_plan reachable' validated' planned').sound
  have agrees := agrees_of_words sound sound' key value
  refine ⟨sameFormat_of_agrees sound sound' agrees, fun codec record row other read read' => ?_⟩
  obtain ⟨cells, held⟩ := CodecRules.exists_cells_of_decode sound read
  have same := CodecRules.cells_eq_of_decode sound sound' agrees read read'
  exact ⟨cells, held, same.symm.trans held⟩

/-- A gate has the format of a door, and a record of a door is read as one of a gate. -/
theorem sameFormat_of_words_door :
    Door.layout.SameFormat Gate.layout ∧ ∃ row other cells,
      CodecRules.decode {} Door.layout Door.record = .ok row ∧
        CodecRules.decode {} Gate.layout Door.record = .ok other ∧
        Door.layout.fields.map (fun field => row.get? field.name) = List.map some cells ∧
        Gate.layout.fields.map (fun field => other.get? field.name) = cells.map some := by
  obtain ⟨format, reads⟩ := sameFormat_of_words Door.reachable .standard Door.validate_declaration
    Gate.validate_declaration Door.plan_schema Gate.plan_schema rfl rfl
  obtain ⟨cells, held, held'⟩ := reads {} Door.record _ _ Door.decode_record Gate.decode_record
  exact ⟨format, _, _, cells, Door.decode_record, Gate.decode_record, held, held'⟩

end Layout

end PackedTables
