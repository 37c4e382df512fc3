import PackedTables.Proofs.Record.Reading
import PackedTables.Proofs.Record.Writing

/-!
# Completed rows

An omitted value stands for the zero of its kind.  The filling that a row makes is read back as the
completed row, as long as no omitted field is an array of a fixed count: its standard form has no
elements, and is refused.
-/

namespace PackedTables

namespace Row

/-- The cell of a field, zero where the row is silent. -/
def cellOf (row : Row) (field : Field) : Cell :=
  (row.get? field.name).getD field.type.kind.zero

/-- A row for some fields, with zero in each of them that it leaves out. -/
def complete (row : Row) (fields : List Field) : Row :=
  ofList (fields.map fun field => (field.name, row.cellOf field))

variable {row : Row} {fields others : List Field}

theorem get?_complete (distinct : (fields.map (·.name)).Nodup) {field : Field}
    (member : field ∈ fields) :
    (row.complete fields).get? field.name = some (row.cellOf field) := by
  have names : ((fields.map fun field => (field.name, row.cellOf field)).map (·.1)).Nodup := by
    rw [List.map_map]
    exact distinct
  exact (get?_ofList names).mpr (List.mem_map.mpr ⟨field, member, rfl⟩)

theorem get?_complete_of_strange (distinct : (fields.map (·.name)).Nodup) {name : String}
    (strange : ∀ field ∈ fields, field.name ≠ name) : (row.complete fields).get? name = none := by
  have names : ((fields.map fun field => (field.name, row.cellOf field)).map (·.1)).Nodup := by
    rw [List.map_map]
    exact distinct
  rw [complete, get?_ofList_eq_none_iff names, List.map_map]
  intro member
  obtain ⟨field, inFields, same⟩ := List.mem_map.mp member
  exact strange field inFields same

theorem mem_of_mem_names_complete (distinct : (fields.map (·.name)).Nodup) {name : String}
    (member : name ∈ (row.complete fields).names) : ∃ field ∈ fields, field.name = name := by
  apply Classical.byContradiction
  intro unlisted
  have missing : (row.complete fields).get? name = none :=
    get?_complete_of_strange distinct fun field inFields same => unlisted ⟨field, inFields, same⟩
  have given := mem_names_iff.mp member
  rw [missing] at given
  cases given

theorem complete_perm (distinct : (fields.map (·.name)).Nodup) (perm : fields.Perm others) :
    row.complete fields = row.complete others := by
  have distinct' := (perm.map (·.name)).nodup_iff.mp distinct
  apply ext_get?
  intro name
  by_cases known : ∃ field ∈ fields, field.name = name
  · obtain ⟨field, member, rfl⟩ := known
    rw [get?_complete distinct member, get?_complete distinct' (perm.mem_iff.mp member)]
  · have strange : ∀ field ∈ fields, field.name ≠ name := fun field member same =>
      known ⟨field, member, same⟩
    rw [get?_complete_of_strange distinct strange, get?_complete_of_strange distinct'
      fun field member => strange field (perm.mem_iff.mpr member)]

/-- A row of the very fields is complete. -/
theorem complete_eq_self (distinct : (fields.map (·.name)).Nodup)
    (known : ∀ name ∈ row.names, ∃ field ∈ fields, field.name = name)
    (given : ∀ field ∈ fields, (row.get? field.name).isSome = true) : row.complete fields = row := by
  apply ext_get?
  intro name
  by_cases listed : ∃ field ∈ fields, field.name = name
  · obtain ⟨field, member, rfl⟩ := listed
    obtain ⟨cell, found⟩ := Option.isSome_iff_exists.mp (given field member)
    rw [get?_complete distinct member, cellOf, found]
    rfl
  · rw [get?_complete_of_strange distinct fun field member same => listed ⟨field, member, same⟩]
    cases found : row.get? name with
    | none => rfl
    | some cell => exact absurd (known name (mem_names_iff.mpr (by simp [found]))) listed

theorem get?_complete_eq {schema : Schema} (sound : schema.Sound)
    (known : ∀ name ∈ row.names, ∃ field ∈ schema.fields, field.name = name) (name : String) :
    (row.complete schema.fields).get? name =
      (row.get? name).or ((schema.field? name).map fun field => field.type.kind.zero) := by
  cases found : schema.field? name with
  | some field =>
      obtain ⟨member, rfl⟩ := sound.field?_eq_some_iff.mp found
      rw [get?_complete sound.distinct member, cellOf]
      cases row.get? field.name <;> rfl
  | none =>
      have strange : ∀ field ∈ schema.fields, field.name ≠ name := by
        rintro field member rfl
        rw [sound.field?_eq_some_iff.mpr ⟨member, rfl⟩] at found
        cases found
      rw [get?_complete_of_strange sound.distinct strange]
      cases given : row.get? name with
      | none => rfl
      | some cell =>
          obtain ⟨field, member, named⟩ := known name (mem_names_iff.mpr (by simp [given]))
          exact absurd named (strange field member)

end Row

namespace Stored.Written

variable {row : Row} {stored : Stored}

theorem cell_eq (written : stored.Written row) : stored.cell = row.cellOf stored.field := by
  cases written with
  | given found spelled => simp [Row.cellOf, found]
  | omitted missing => simp [Row.cellOf, missing]

/-- Whatever is written spells its cell, but for omitted arrays of a fixed count. -/
theorem spelled (written : stored.Written row) (sound : stored.field.type.Sound)
    (pinned : stored.field.type.kind.isPinned = true →
      (row.get? stored.field.name).isSome = true) : stored.Spelled := by
  cases written with
  | given found spelled => exact spelled
  | @omitted field missing =>
      have unpinned : field.type.kind.isPinned = false := by
        apply Bool.eq_false_iff.mpr
        intro isPinned
        have given := pinned isPinned
        rw [missing] at given
        cases given
      change field.type.kind.Spells field.type.kind.zero field.type.standard
      rw [FieldType.Sound.standard_eq sound]
      exact sound.kind.spells_zero unpinned

end Stored.Written

namespace Filling

variable {layout : Layout} {filling : Filling} {codec : CodecRules} {row : Row}

theorem Writes.row_eq (writes : filling.Writes codec row) (fits : filling.Fits layout) :
    filling.row = row.complete layout.fields := by
  rw [Filling.row, Row.complete, ← fits.fields, List.map_map]
  refine congrArg Row.ofList (List.map_congr_left fun stored member => ?_)
  exact congrArg (Prod.mk stored.field.name) (writes.written stored member).cell_eq

theorem Writes.spelled (writes : filling.Writes codec row) (fits : filling.Fits layout)
    (sound : layout.Sound) (pinned : ∀ field ∈ layout.fields, field.type.kind.isPinned = true →
      (row.get? field.name).isSome = true) : ∀ stored ∈ filling.all, stored.Spelled :=
  fun stored member => (writes.written stored member).spelled (fits.type sound member)
    (pinned _ (fits.fields ▸ List.mem_map_of_mem member))

/-- What a row gives may be said by another row, and what it leaves out as well. -/
theorem Writes.of_agrees (writes : filling.Writes codec row)
    (spelled : ∀ stored ∈ filling.all, stored.Spelled) {other : Row}
    (agrees : ∀ stored ∈ filling.all, other.get? stored.field.name = row.get? stored.field.name ∨
      other.get? stored.field.name = some stored.cell) : filling.Writes codec other where
  keyed := fun stored member => by
    rcases agrees stored (List.mem_append_left _ (List.mem_append_left _ member)) with same | given
    · rw [same]
      exact writes.keyed stored member
    · rw [given]
      rfl
  written := fun stored member => by
    have spells := spelled stored member
    rcases agrees stored member with same | given
    · cases writes.written stored member with
      | given found _ => exact .given (same.trans found) spells
      | omitted missing => exact .omitted (same.trans missing)
    · exact .given given spells
  short := writes.short

end Filling

namespace CodecRules

variable {codec : CodecRules} {layout : Layout} {row : Row} {record : Record}

theorem known_of_encode (sound : layout.Sound) (encoded : codec.encode layout row = .ok record) :
    ∀ name ∈ row.names, ∃ field ∈ layout.fields, field.name = name :=
  ((encode_eq_ok_iff sound).mp encoded).1

theorem keyed_of_encode (sound : layout.Sound) (encoded : codec.encode layout row = .ok record)
    {slot : KeySlot} (member : slot ∈ layout.keySlots) :
    (row.get? slot.field.name).isSome = true := by
  obtain ⟨known, filling, fits, writes, made⟩ := (encode_eq_ok_iff sound).mp encoded
  have keyed : slot.field ∈ filling.key.map (·.field) := fits.key ▸ List.mem_map_of_mem member
  obtain ⟨stored, held, same⟩ := List.mem_map.mp keyed
  exact same ▸ writes.keyed stored held

/-- A written row is read back completed when it gives each array of a fixed count. -/
theorem decode_of_encode (sound : layout.Sound) (encoded : codec.encode layout row = .ok record)
    (pinned : ∀ field ∈ layout.fields, field.type.kind.isPinned = true →
      (row.get? field.name).isSome = true) :
    codec.decode layout record = .ok (row.complete layout.fields) := by
  obtain ⟨known, filling, fits, writes, made⟩ := (encode_eq_ok_iff sound).mp encoded
  refine (decode_eq_ok_iff sound).mpr ⟨filling, fits, ?_, made, writes.row_eq fits⟩
  exact fun stored member => (fits.type sound member).kind.readStored_of_spells
    (writes.spelled fits sound pinned stored member) _

end CodecRules

end PackedTables
