import PackedTables.Proofs.Layout.Position
import PackedTables.Proofs.Record.RoundTrip

/-!
# Canonical records

With strict truth values a record is read only when it is the record that its row is written to.  A
record may hold longer payloads than the rules let a row write; such a row is refused instead.
-/

namespace PackedTables

/-- The length of a payload, as the header tells it. -/
def Layout.payloadLength (layout : Layout) (value : Bytes) (slot : DynamicSlot) : Nat :=
  Lengths.slotLength ((value.drop layout.staticLength).take Lengths.wordLength) slot.ordinal

/-- The lengths that a header packs are those that it tells. -/
theorem Layout.Sound.payloadLength_eq {layout : Layout} (sound : layout.Sound) {block rest : Bytes}
    (placed : block.length = layout.staticLength) {lengths : List Nat}
    (counted : lengths.length = layout.dynamicSlots.length)
    (bounded : ∀ length ∈ lengths, length ≤ Limits.maxDynamicLength) :
    layout.dynamicSlots.map (layout.payloadLength (block ++ (Lengths.pack lengths ++ rest))) =
      lengths := by
  apply List.ext_getElem (by rw [List.length_map, counted])
  intro place inSlots inLengths
  rw [List.length_map] at inSlots
  have few := Nat.lt_of_lt_of_le inSlots sound.within.fewDynamic
  have header : ((block ++ (Lengths.pack lengths ++ rest)).drop layout.staticLength).take
      Lengths.wordLength = Lengths.pack lengths := by
    rw [List.drop_left' placed, List.take_left' (Lengths.length_pack _)]
  rw [List.getElem_map, Layout.payloadLength, header,
    sound.ordinal_eq (List.getElem?_eq_getElem inSlots), Lengths.slotLength_pack bounded few,
    Lengths.lengthAt, List.getElem?_eq_getElem inLengths]
  rfl

namespace Filling

variable {layout : Layout} {filling : Filling} {codec : CodecRules}

/-- What is read strictly spells its cell. -/
theorem Fits.spelled (fits : filling.Fits layout) (sound : layout.Sound)
    (strict : codec.strictBool = true) (reads : ∀ stored ∈ filling.all, stored.Reads codec) :
    ∀ stored ∈ filling.all, stored.Spelled := by
  intro stored member
  have read := reads stored member
  rw [Stored.Reads, strict] at read
  exact (fits.type sound member).kind.spells_of_readStored
    (fun width fixed => fits.length_eq sound member fixed) read

theorem Fits.keyed_row (fits : filling.Fits layout) (sound : layout.Sound) :
    ∀ stored ∈ filling.key, (filling.row.get? stored.field.name).isSome = true := by
  intro stored member
  rw [fits.get?_row sound (List.mem_append_left _ (List.mem_append_left _ member))]
  rfl

/-- A row of spelled cells makes the filling that it was read from. -/
theorem Fits.writes_row (fits : filling.Fits layout) (sound : layout.Sound)
    (spelled : ∀ stored ∈ filling.all, stored.Spelled)
    (short : ∀ length ∈ Stored.lengths filling.payloads, length ≤ codec.payloadLimit) :
    filling.Writes codec filling.row where
  keyed := fits.keyed_row sound
  written := fun stored member => .given (fits.get?_row sound member) (spelled stored member)
  short := short

/-- The lengths in a header are those of the payloads. -/
theorem Fits.payloadLength_eq (fits : filling.Fits layout) (sound : layout.Sound) :
    layout.dynamicSlots.map (layout.payloadLength filling.record.value) =
      Stored.lengths filling.payloads := by
  by_cases none : layout.dynamicSlots = []
  · rw [none, fits.payloads_eq_nil none]
    rfl
  · rw [Filling.record, Stored.tail_eq none fits.payloads]
    exact sound.payloadLength_eq (sound.length_block fits.block fits.blockExact)
      (sound.few_lengths fits.payloads).1 fits.bounded

end Filling

namespace CodecRules

variable {codec : CodecRules} {layout : Layout} {row : Row}

/-! ## Payloads that are too long -/

theorem writePayload_of_written (codec : CodecRules) (sound : layout.Sound) {slot : DynamicSlot}
    (member : slot ∈ layout.dynamicSlots) {stored : Stored} (named : stored.field = slot.field)
    (written : stored.Written row) :
    codec.writePayload layout row slot =
      codec.checkPayload layout.table stored.field stored.part := by
  have type := sound.dynamicType member
  have varying := (Field.width?_eq_none_iff type).mp (sound.varying slot member)
  have payload : layout.writeDynamicSlot row slot = .ok stored.part :=
    (Layout.writeDynamicSlot_eq_ok_iff type.kind varying).mpr ⟨stored.cell, named ▸ written⟩
  rw [writePayload, payload, named]
  rfl

/-- The first payload that is too long is named. -/
theorem writePayloads_eq_error (sound : layout.Sound) {slots : List DynamicSlot}
    (inside : ∀ slot ∈ slots, slot ∈ layout.dynamicSlots) {held : List Stored}
    (fields : held.map (·.field) = slots.map (·.field))
    (written : ∀ stored ∈ held, stored.Written row)
    (long : ∃ stored ∈ held, codec.payloadLimit < stored.part.length) :
    ∃ stored ∈ held, codec.payloadLimit < stored.part.length ∧
      slots.mapM (codec.writePayload layout row) = .error (.invalidCell layout.table
        stored.field.name (.payloadLimit stored.part.length codec.payloadLimit)) := by
  induction slots generalizing held with
  | nil =>
      obtain rfl := List.map_eq_nil_iff.mp fields
      obtain ⟨stored, member, -⟩ := long
      cases member
  | cons slot slots ih =>
      obtain ⟨stored, others, rfl, named, remaining⟩ := List.map_eq_cons_iff.mp fields
      obtain ⟨here, inside⟩ := List.forall_mem_cons.mp inside
      obtain ⟨first, written⟩ := List.forall_mem_cons.mp written
      have payload := writePayload_of_written codec sound here named first
      rw [checkPayload] at payload
      by_cases exceeds : codec.payloadLimit < stored.part.length
      · rw [if_pos exceeds] at payload
        refine ⟨stored, List.mem_cons_self, exceeds, ?_⟩
        rw [List.mapM_cons, payload]
        rfl
      · rw [if_neg exceeds] at payload
        obtain ⟨other, member, above⟩ := long
        have later : other ∈ others := by
          rcases List.mem_cons.mp member with rfl | later
          · exact absurd above exceeds
          · exact later
        obtain ⟨found, inOthers, above, refused⟩ := ih inside remaining written ⟨other, later, above⟩
        refine ⟨found, List.mem_cons_of_mem _ inOthers, above, ?_⟩
        rw [List.mapM_cons, payload]
        exact Outcome.bind_eq_error.mpr
          (Or.inr ⟨_, rfl, Outcome.bind_eq_error.mpr (Or.inl refused)⟩)

theorem encode_eq_error (sound : layout.Sound) {filling : Filling} (fits : filling.Fits layout)
    (spelled : ∀ stored ∈ filling.all, stored.Spelled)
    (long : ∃ stored ∈ filling.payloads, codec.payloadLimit < stored.part.length) :
    ∃ stored ∈ filling.payloads, codec.payloadLimit < stored.part.length ∧
      codec.encode layout filling.row = .error (.invalidCell layout.table
        stored.field.name (.payloadLimit stored.part.length codec.payloadLimit)) := by
  have written : ∀ stored ∈ filling.all, stored.Written filling.row := fun stored member =>
    .given (fits.get?_row sound member) (spelled stored member)
  obtain ⟨keyWritten, blockWritten, payloadWritten⟩ := Filling.forall_all_iff.mp written
  obtain ⟨stored, member, exceeds, refused⟩ :=
    writePayloads_eq_error sound (fun _ => id) fits.payloads payloadWritten long
  refine ⟨stored, member, exceeds, ?_⟩
  have strange : layout.strangeName? filling.row = none :=
    Layout.strangeName?_eq_none_iff.mpr fun _ named =>
      (fits.contains_row_iff sound).mp (Row.mem_names_iff.mp named)
  have key := (Layout.writeKey_eq_ok_iff sound).mpr ⟨filling.key, fits.key, fun stored member =>
    ⟨keyWritten stored member, fits.keyed_row sound stored member⟩, rfl⟩
  have block := (Layout.writeBlock_eq_ok_iff sound).mpr
    ⟨filling.block, fits.block, blockWritten, rfl⟩
  have dynamic : layout.hasDynamic = true := by
    simp [Layout.hasDynamic, fits.dynamicSlots_ne_nil member]
  unfold encode
  rw [strange]
  refine Outcome.bind_eq_error.mpr (Or.inr ⟨_, key, Outcome.bind_eq_error.mpr
    (Or.inr ⟨_, block, Outcome.bind_eq_error.mpr (Or.inl ?_)⟩)⟩)
  rw [writeTail, dynamic, if_pos rfl]
  exact Outcome.bind_eq_error.mpr (Or.inl refused)

theorem encode_row (sound : layout.Sound) {filling : Filling} (fits : filling.Fits layout)
    (spelled : ∀ stored ∈ filling.all, stored.Spelled)
    (short : ∀ length ∈ Stored.lengths filling.payloads, length ≤ codec.payloadLimit) :
    codec.encode layout filling.row = .ok filling.record :=
  (encode_eq_ok_iff sound).mpr ⟨fun _ named =>
    (fits.contains_row_iff sound).mp (Row.mem_names_iff.mp named), filling, fits,
    fits.writes_row sound spelled short, rfl⟩

theorem encode_row_widest (codec : CodecRules) (sound : layout.Sound) {filling : Filling}
    (fits : filling.Fits layout) (spelled : ∀ stored ∈ filling.all, stored.Spelled) :
    encode { codec with maxDynamicLength := Limits.maxDynamicLength } layout filling.row =
      .ok filling.record := by
  apply encode_row sound fits spelled
  rw [payloadLimit, Nat.min_self]
  exact fits.bounded

theorem spelled_of_decode (sound : layout.Sound) (strict : codec.strictBool = true)
    {record : Record} (decoded : codec.decode layout record = .ok row) :
    ∃ filling : Filling, filling.Fits layout ∧ (∀ stored ∈ filling.all, stored.Spelled) ∧
      filling.record = record ∧ filling.row = row := by
  obtain ⟨filling, fits, reads, made, same⟩ := (decode_eq_ok_iff sound).mp decoded
  exact ⟨filling, fits, fits.spelled sound strict reads, made, same⟩

/-! ## Reading, then writing -/

variable {registry : Registry} {rules limits : SchemaRules} {declaration : TableDeclaration}
  {schema : Schema} {record : Record}

/--
A record that is read strictly is the record of its row, and of no other shape: the row has exactly
the fields of the schema, and is written back to the same bytes unless a payload is too long for the
rules.  Without a limit of their own the rules write every row that can be read.
-/
theorem encode_decode (reachable : registry.Reachable)
    (validated : rules.validate registry declaration = .ok schema)
    (planned : Layout.plan limits schema = .ok layout) (strict : codec.strictBool = true)
    (decoded : codec.decode layout record = .ok row) :
    (∀ name, (row.get? name).isSome = true ↔ ∃ field ∈ schema.fields, field.name = name) ∧
      ((∀ slot ∈ layout.dynamicSlots,
          layout.payloadLength record.value slot ≤ codec.payloadLimit) →
        codec.encode layout row = .ok record) ∧
      ((∃ slot ∈ layout.dynamicSlots,
          codec.payloadLimit < layout.payloadLength record.value slot) →
        ∃ slot ∈ layout.dynamicSlots,
          codec.payloadLimit < layout.payloadLength record.value slot ∧
            codec.encode layout row = .error (.invalidCell schema.name slot.field.name
              (.payloadLimit (layout.payloadLength record.value slot) codec.payloadLimit))) ∧
      (∀ other, codec.decode layout other = .ok row → other = record) ∧
      encode { codec with maxDynamicLength := Limits.maxDynamicLength } layout row = .ok record := by
  have stores := Layout.stores_of_plan reachable validated planned
  have sound := stores.sound
  obtain ⟨filling, fits, spelled, rfl, rfl⟩ := spelled_of_decode sound strict decoded
  have lengths := fits.payloadLength_eq sound
  have widest := encode_row_widest codec sound fits spelled
  refine ⟨fun name => ?_, fun short => ?_, fun long => ?_, fun other read => ?_, widest⟩
  · rw [fits.contains_row_iff sound]
    exact exists_congr fun field => and_congr_left fun _ => stores.fields.mem_iff
  · apply encode_row sound fits spelled
    rw [← lengths]
    exact List.forall_mem_map.mpr short
  · obtain ⟨slot, member, exceeds⟩ := long
    have listed : layout.payloadLength filling.record.value slot ∈
        Stored.lengths filling.payloads := lengths ▸ List.mem_map_of_mem member
    obtain ⟨stored, held, same⟩ := List.mem_map.mp listed
    obtain ⟨found, inPayloads, above, refused⟩ :=
      encode_eq_error sound fits spelled ⟨stored, held, same ▸ exceeds⟩
    -- The slot of the payload that is named has its field and its length.
    have paired := congrArg₂ List.zip fits.payloads lengths.symm
    rw [Stored.lengths, List.zip_map', List.zip_map'] at paired
    have here : (found.field, found.part.length) ∈ _ := paired ▸ List.mem_map_of_mem inPayloads
    obtain ⟨slot', inSlots, slotSame⟩ := List.mem_map.mp here
    obtain ⟨named, sized⟩ := Prod.mk.inj slotSame
    refine ⟨slot', inSlots, sized ▸ above, ?_⟩
    rw [refused, named, sized, stores.table]
  · obtain ⟨filling', fits', spelled', rfl, same⟩ := spelled_of_decode sound strict read
    have widest' := encode_row_widest codec sound fits' spelled'
    rw [same, widest] at widest'
    exact (Except.ok.inj widest').symm

theorem encode_decode_player : encode {} Player.layout Player.wholeRow = .ok Player.record :=
  (encode_decode .standard Player.validate_declaration Player.plan_schema rfl
    Player.decode_record).2.1 (by decide +kernel)

end CodecRules

end PackedTables
