import PackedTables.Proofs.Record.Refusal
import PackedTables.Proofs.Record.RoundTrip

/-!
# Omitted values

A row may leave out any value.  Its record can be read exactly when it leaves out no array of a fixed
count, and then every omitted field reads as a cell that would have been written to the same bytes.
-/

namespace PackedTables

namespace CodecRules

variable {codec : CodecRules} {layout : Layout} {row : Row} {record : Record}

/-- A record that can be read leaves out no array of a fixed count. -/
theorem pinned_of_decode (sound : layout.Sound) (encoded : codec.encode layout row = .ok record)
    {decoded : Row} (read : codec.decode layout record = .ok decoded) :
    ∀ field ∈ layout.fields, field.type.kind.isPinned = true →
      (row.get? field.name).isSome = true := by
  obtain ⟨known, filling, fits, writes, rfl⟩ := (encode_eq_ok_iff sound).mp encoded
  obtain ⟨other, fits', reads, same, -⟩ := (decode_eq_ok_iff sound).mp read
  intro field member isPinned
  rw [← fits.fields] at member
  obtain ⟨stored, held, rfl⟩ := List.mem_map.mp member
  have slot : stored.slot ∈ other.all.map Stored.slot := by
    rw [fits'.slots_eq sound fits same]
    exact List.mem_map_of_mem held
  obtain ⟨stored', held', paired⟩ := List.mem_map.mp slot
  obtain ⟨named, parted⟩ := Prod.mk.inj paired
  have type := fits.type sound held
  have found := reads stored' held'
  cases writes.written stored held with
  | given given _ => simp [given]
  | omitted missing =>
      obtain ⟨element, count, -, refused⟩ :=
        type.kind.readStored_standard_of_isPinned isPinned codec.strictBool
      rw [Stored.Reads, named, parted] at found
      rw [← FieldType.Sound.standard_eq type] at refused
      cases found.symm.trans refused

/-- A record that cannot be read leaves out an array of a fixed count, and is refused for it. -/
theorem omitted_of_refused (sound : layout.Sound) (encoded : codec.encode layout row = .ok record)
    {fault : Fault} (refused : codec.decode layout record = .error fault) :
    ∃ field ∈ layout.fields, ∃ element count, field.type.kind = .array element (some count) ∧
      row.get? field.name = none ∧
      fault = .malformedRecord layout.table (.inField field.name (.elementCount 0 count)) := by
  obtain ⟨known, filling, fits, writes, rfl⟩ := (encode_eq_ok_iff sound).mp encoded
  obtain ⟨flaw, ⟨stored, held, cause, unread, rfl⟩, rfl⟩ := decode_eq_error sound fits refused
  have type := fits.type sound held
  have listed : stored.field ∈ layout.fields := fits.fields ▸ List.mem_map_of_mem held
  cases writes.written stored held with
  | given given spelled =>
      cases unread.symm.trans (type.kind.readStored_of_spells spelled _)
  | @omitted field missing =>
      cases isPinned : field.type.kind.isPinned with
      | false =>
          have spelled := type.kind.spells_zero isPinned
          rw [← FieldType.Sound.standard_eq type] at spelled
          cases unread.symm.trans (type.kind.readStored_of_spells spelled _)
      | true =>
          obtain ⟨element, count, array, counted⟩ :=
            type.kind.readStored_standard_of_isPinned isPinned codec.strictBool
          rw [← FieldType.Sound.standard_eq type] at counted
          obtain rfl := Except.error.inj (unread.symm.trans counted)
          exact ⟨field, listed, element, count, array, missing, rfl⟩

/-- What was left out may be put in as it is read, one field or all of them. -/
theorem encode_of_agrees (sound : layout.Sound) (encoded : codec.encode layout row = .ok record)
    {decoded other : Row} (read : codec.decode layout record = .ok decoded)
    (known : ∀ name ∈ other.names, ∃ field ∈ layout.fields, field.name = name)
    (agrees : ∀ field ∈ layout.fields, other.get? field.name = row.get? field.name ∨
      other.get? field.name = decoded.get? field.name) : codec.encode layout other = .ok record := by
  have pinned := pinned_of_decode sound encoded read
  have complete := decode_of_encode sound encoded pinned
  obtain rfl := Except.ok.inj (complete.symm.trans read)
  obtain ⟨-, filling, fits, writes, rfl⟩ := (encode_eq_ok_iff sound).mp encoded
  refine (encode_eq_ok_iff sound).mpr ⟨known, filling, fits, ?_, rfl⟩
  apply writes.of_agrees (writes.spelled fits sound pinned)
  intro stored held
  have listed : stored.field ∈ layout.fields := fits.fields ▸ List.mem_map_of_mem held
  rcases agrees stored.field listed with same | same
  · exact Or.inl same
  · rw [same, ← writes.row_eq fits, fits.get?_row sound held]
    exact Or.inr rfl

/-! ## Omitting and writing zero -/

section

variable {registry : Registry} {rules limits : SchemaRules} {declaration : TableDeclaration}
  {schema : Schema}

/--
A record is read back unless its row left out an array of a fixed count.  What is read for the
omitted fields can be written, and gives the same record.
-/
theorem decode_of_omitting (reachable : registry.Reachable)
    (validated : rules.validate registry declaration = .ok schema)
    (planned : Layout.plan limits schema = .ok layout)
    (encoded : codec.encode layout row = .ok record) :
    ((∃ decoded, codec.decode layout record = .ok decoded) ↔
        ∀ field ∈ schema.fields, field.type.kind.isPinned = true →
          (row.get? field.name).isSome = true) ∧
      (∀ decoded, codec.decode layout record = .ok decoded →
        codec.encode layout decoded = .ok record ∧
          ∀ field ∈ schema.fields, row.get? field.name = none →
            ∃ cell, decoded.get? field.name = some cell ∧
              codec.encode layout (row.insert field.name cell) = .ok record) ∧
      ∀ fault, codec.decode layout record = .error fault →
        ∃ field ∈ schema.fields, ∃ element count, field.type.kind = .array element (some count) ∧
          row.get? field.name = none ∧
          fault = .malformedRecord schema.name (.inField field.name (.elementCount 0 count)) := by
  have stores := Layout.stores_of_plan reachable validated planned
  have sound := stores.sound
  refine ⟨⟨?_, fun pinned => ?_⟩, fun decoded read => ?_, fun fault refused => ?_⟩
  · rintro ⟨decoded, read⟩ field member
    exact pinned_of_decode sound encoded read field (stores.fields.mem_iff.mpr member)
  · exact ⟨_, decode_of_encode sound encoded fun field member =>
      pinned field (stores.fields.mem_iff.mp member)⟩
  · have complete := decode_of_encode sound encoded (pinned_of_decode sound encoded read)
    obtain rfl := Except.ok.inj (complete.symm.trans read)
    have known := known_of_encode sound encoded
    refine ⟨encode_of_agrees sound encoded read (fun name member =>
      Row.mem_of_mem_names_complete sound.distinct member) fun field member => Or.inr rfl, ?_⟩
    intro field member missing
    have listed := stores.fields.mem_iff.mpr member
    have found : (row.complete layout.fields).get? field.name = some (row.cellOf field) :=
      Row.get?_complete sound.distinct listed
    refine ⟨_, found, encode_of_agrees sound encoded read (fun name member => ?_) fun other _ => ?_⟩
    · rw [Row.mem_names_iff, Row.get?_insert] at member
      by_cases here : name = field.name
      · exact ⟨field, listed, here.symm⟩
      · rw [if_neg here] at member
        exact known name (Row.mem_names_iff.mpr member)
    · rw [Row.get?_insert]
      by_cases here : other.name = field.name
      · rw [if_pos here, here, found]
        exact Or.inr rfl
      · rw [if_neg here]
        exact Or.inl rfl
  · obtain ⟨field, member, element, count, array, missing, rfl⟩ :=
      omitted_of_refused sound encoded refused
    have declared := stores.fields.mem_iff.mp member
    exact ⟨field, declared, element, count, array, missing, by rw [stores.table]⟩

theorem decode_of_omitting_player : ∃ decoded,
    decode {} Player.layout Player.record = .ok decoded :=
  (decode_of_omitting .standard Player.validate_declaration Player.plan_schema
    Player.encode_row).1.mpr (by decide)

/-- A player without a spot is written, and cannot be read. -/
theorem unreadable_without_spot :
    encode {} Player.layout (Row.ofList [("id", .uint 7)]) =
        .ok ⟨[0, 0, 0, 7], [0, 0, 0] ++ Lengths.pack [0, 0]⟩ ∧
      decode {} Player.layout ⟨[0, 0, 0, 7], [0, 0, 0] ++ Lengths.pack [0, 0]⟩ =
        .error (.malformedRecord "Player" (.inField "spot" (.elementCount 0 2))) := by
  decide +kernel

end

end CodecRules

end PackedTables
