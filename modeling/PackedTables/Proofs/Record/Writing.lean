import PackedTables.Proofs.Outcome
import PackedTables.Proofs.Record.Filling

/-!
# Records that are written

A row is written when its names are fields of the layout and it makes a filling: each slot holds the
bytes that spell its cell, or the standard form where the row is silent.  Key fields must be given,
and no payload may be longer than the rules allow.
-/

namespace PackedTables

/-- What a row puts in a slot. -/
inductive Stored.Written (row : Row) : Stored → Prop
  | given {field : Field} {part : Bytes} {cell : Cell} : row.get? field.name = some cell →
      field.type.kind.Spells cell part → Written row ⟨field, part, cell⟩
  | omitted {field : Field} : row.get? field.name = none →
      Written row ⟨field, field.type.standard, field.type.kind.zero⟩

/-- What a row puts in a slot of fixed width is as long as the slot. -/
theorem Stored.Written.exact {row : Row} {stored : Stored} (written : stored.Written row)
    (sound : stored.field.type.Sound) {width : Nat} (sized : stored.field.width? = some width) :
    stored.Exact := by
  have scalar := Field.scalar_of_width? sound sized
  refine (Field.width?_eq_some_iff sound).mpr ?_
  cases written with
  | given found spelled => exact scalar.length_of_spells spelled
  | omitted missing =>
      rename_i field
      have fixed := (Field.width?_eq_some_iff sound).mp sized
      change field.type.kind.width = _ at fixed
      change field.type.kind.width = .fixed field.type.standard.length
      rw [FieldType.Sound.standard_eq sound, fixed, FieldType.standardOf, List.length_replicate]

/-- What a row puts in a run of slots is as long as they are. -/
theorem Span.Run.exact {start stop : Nat} {spans : List Span} (run : Span.Run start spans stop)
    {fields : List Field} (spanned : spans.map (·.field) = fields)
    (types : ∀ field ∈ fields, field.type.Sound) {row : Row} {held : List Stored}
    (listed : held.map (·.field) = fields) (written : ∀ stored ∈ held, stored.Written row) :
    ∀ stored ∈ held, stored.Exact := by
  intro stored member
  have inFields : stored.field ∈ fields := listed ▸ List.mem_map_of_mem member
  have inSpans : stored.field ∈ spans.map (·.field) := spanned ▸ inFields
  obtain ⟨span, placed, same⟩ := List.mem_map.mp inSpans
  have sized := run.sized span placed
  rw [same] at sized
  exact (written stored member).exact (types stored.field inFields) sized

/-- The filling that a row makes under some rules. -/
structure Filling.Writes (filling : Filling) (rules : CodecRules) (row : Row) : Prop where
  keyed : ∀ stored ∈ filling.key, (row.get? stored.field.name).isSome = true
  written : ∀ stored ∈ filling.all, stored.Written row
  short : ∀ length ∈ Stored.lengths filling.payloads, length ≤ rules.payloadLimit

namespace Layout

variable {layout : Layout} {row : Row} {part : Bytes}

theorem position?_isSome_iff {name : String} :
    (layout.position? name).isSome = true ↔ ∃ field ∈ layout.fields, field.name = name := by
  have listed {slotType : Type} {slots : List slotType} (field : slotType → Field) :
      (slots.find? fun slot => (field slot).name == name).isSome = true ↔
        ∃ found ∈ slots.map field, found.name = name := by
    simp [List.find?_isSome]
  simp only [fields, valueFields, List.mem_append, or_and_right, exists_or]
  rw [← listed KeySlot.field, ← listed FixedSlot.field, ← listed DynamicSlot.field, position?]
  cases layout.keySlots.find? fun slot => slot.field.name == name with
  | some slot => simp
  | none =>
      cases layout.fixedSlots.find? fun slot => slot.field.name == name with
      | some slot => simp
      | none => simp

theorem strangeName?_eq_none_iff :
    layout.strangeName? row = none ↔
      ∀ name ∈ row.names, ∃ field ∈ layout.fields, field.name = name := by
  rw [strangeName?, List.find?_eq_none]
  refine forall_congr' fun name => imp_congr_right fun _ => ?_
  rw [← position?_isSome_iff]
  cases layout.position? name <;> simp

/-! ## One slot -/

theorem writeKeySlot_eq_ok_iff {slot : KeySlot} (scalar : slot.field.type.kind.Scalar) :
    layout.writeKeySlot row slot = .ok part ↔
      ∃ cell, Stored.Written row ⟨slot.field, part, cell⟩ ∧
        (row.get? slot.field.name).isSome = true := by
  unfold writeKeySlot
  constructor
  · intro written
    split at written
    · rename_i cell found
      exact ⟨cell, .given found ((Field.write_eq_ok_iff scalar).mp written), by simp [found]⟩
    · cases written
  · rintro ⟨cell, written, given⟩
    cases written with
    | given found spelled =>
        rw [found]
        exact (Field.write_eq_ok_iff scalar).mpr spelled
    | omitted missing =>
        rw [missing] at given
        cases given

/-- Value slots of both widths are written alike, by one writer or the other. -/
theorem writeValue_eq_ok_iff {field : Field} {write : Cell → Except Fault Bytes}
    (spells : ∀ cell, write cell = .ok part ↔ field.type.kind.Spells cell part) :
    (match row.get? field.name with
      | some cell => write cell
      | none => .ok field.type.standard) = .ok part ↔
      ∃ cell, Stored.Written row ⟨field, part, cell⟩ := by
  constructor
  · intro written
    split at written
    · rename_i cell found
      exact ⟨cell, .given found ((spells cell).mp written)⟩
    · rename_i missing
      obtain rfl := Except.ok.inj written
      exact ⟨field.type.kind.zero, .omitted missing⟩
  · rintro ⟨cell, written⟩
    cases written with
    | given found spelled =>
        rw [found]
        exact (spells cell).mpr spelled
    | omitted missing => rw [missing]

theorem writeFixedSlot_eq_ok_iff {slot : FixedSlot} (scalar : slot.field.type.kind.Scalar) :
    layout.writeFixedSlot row slot = .ok part ↔
      ∃ cell, Stored.Written row ⟨slot.field, part, cell⟩ :=
  writeValue_eq_ok_iff fun _ => Field.write_eq_ok_iff scalar

theorem writeDynamicSlot_eq_ok_iff {slot : DynamicSlot} (sound : slot.field.type.kind.Sound)
    (varying : slot.field.type.kind.width = .varying) :
    layout.writeDynamicSlot row slot = .ok part ↔
      ∃ cell, Stored.Written row ⟨slot.field, part, cell⟩ :=
  writeValue_eq_ok_iff fun _ => Field.writePayload_eq_ok_iff sound varying

/-! ## Runs of slots -/

/-- Slots written one by one hold what each of them holds. -/
theorem writeSlots_eq_ok_iff {slotType : Type} {slots : List slotType} {field : slotType → Field}
    {write : slotType → Except Fault Bytes} {holds : Stored → Prop}
    (each : ∀ slot ∈ slots, ∀ part, write slot = .ok part ↔ ∃ cell, holds ⟨field slot, part, cell⟩)
    {parts : List Bytes} :
    slots.mapM write = .ok parts ↔
      ∃ held : List Stored, held.map (·.field) = slots.map field ∧
        (∀ stored ∈ held, holds stored) ∧ held.map (·.part) = parts := by
  induction slots generalizing parts with
  | nil =>
      constructor
      · intro written
        obtain rfl := Outcome.pure_eq_ok.mp written
        exact ⟨[], rfl, by simp, rfl⟩
      · rintro ⟨held, fields, -, rfl⟩
        obtain rfl := List.map_eq_nil_iff.mp fields
        rfl
  | cons slot slots ih =>
      obtain ⟨first, others⟩ := List.forall_mem_cons.mp each
      rw [List.mapM_cons, Outcome.bind_eq_ok]
      constructor
      · rintro ⟨part, here, continued⟩
        obtain ⟨following, there, same⟩ := Outcome.bind_eq_ok.mp continued
        obtain rfl := Outcome.pure_eq_ok.mp same
        obtain ⟨cell, holding⟩ := (first part).mp here
        obtain ⟨held, fields, all, rfl⟩ := (ih others).mp there
        refine ⟨⟨field slot, part, cell⟩ :: held, ?_, List.forall_mem_cons.mpr ⟨holding, all⟩, rfl⟩
        rw [List.map_cons, fields, List.map_cons]
      · rintro ⟨held, fields, all, rfl⟩
        obtain ⟨stored, following, rfl, named, remaining⟩ := List.map_eq_cons_iff.mp fields
        obtain ⟨holding, all⟩ := List.forall_mem_cons.mp all
        have here := (first stored.part).mpr ⟨stored.cell, named ▸ holding⟩
        have there := (ih others).mpr ⟨following, remaining, all, rfl⟩
        exact ⟨stored.part, here, Outcome.bind_eq_ok.mpr ⟨_, there, rfl⟩⟩

theorem joinSlots_eq_ok_iff {slotType : Type} {slots : List slotType} {field : slotType → Field}
    {write : slotType → Except Fault Bytes} {holds : Stored → Prop}
    (each : ∀ slot ∈ slots, ∀ part, write slot = .ok part ↔ ∃ cell, holds ⟨field slot, part, cell⟩)
    {bytes : Bytes} :
    List.flatten <$> slots.mapM write = .ok bytes ↔
      ∃ held : List Stored, held.map (·.field) = slots.map field ∧
        (∀ stored ∈ held, holds stored) ∧ Stored.joined held = bytes := by
  change Except.map _ _ = _ ↔ _
  rw [Outcome.map_eq_ok]
  constructor
  · rintro ⟨parts, written, rfl⟩
    obtain ⟨held, fields, all, rfl⟩ := (writeSlots_eq_ok_iff each).mp written
    exact ⟨held, fields, all, rfl⟩
  · rintro ⟨held, fields, all, rfl⟩
    exact ⟨_, (writeSlots_eq_ok_iff each).mpr ⟨held, fields, all, rfl⟩, rfl⟩

theorem writeKey_eq_ok_iff (sound : layout.Sound) {bytes : Bytes} :
    layout.writeKey row = .ok bytes ↔
      ∃ held : List Stored, held.map (·.field) = layout.keySlots.map (·.field) ∧
        (∀ stored ∈ held, stored.Written row ∧ (row.get? stored.field.name).isSome = true) ∧
        Stored.joined held = bytes :=
  joinSlots_eq_ok_iff fun _ member _ => writeKeySlot_eq_ok_iff
    (Field.scalar_of_width? (sound.keyType member) (sound.keyWidth member))

theorem writeBlock_eq_ok_iff (sound : layout.Sound) {bytes : Bytes} :
    layout.writeBlock row = .ok bytes ↔
      ∃ held : List Stored, held.map (·.field) = layout.fixedSlots.map (·.field) ∧
        (∀ stored ∈ held, stored.Written row) ∧ Stored.joined held = bytes :=
  joinSlots_eq_ok_iff fun _ member _ => writeFixedSlot_eq_ok_iff
    (Field.scalar_of_width? (sound.fixedType member) (sound.fixedWidth member))

end Layout

namespace CodecRules

variable {rules : CodecRules} {layout : Layout} {row : Row}

theorem checkPayload_eq_ok_iff {table : String} {field : Field} {payload part : Bytes} :
    rules.checkPayload table field payload = .ok part ↔
      payload = part ∧ payload.length ≤ rules.payloadLimit := by
  unfold checkPayload
  split
  · rename_i long
    simp only [reduceCtorEq, false_iff, not_and]
    intro _
    omega
  · rename_i short
    rw [Except.ok.injEq]
    exact ⟨fun same => ⟨same, by omega⟩, fun both => both.1⟩

theorem writePayload_eq_ok_iff (sound : layout.Sound) {slot : DynamicSlot}
    (member : slot ∈ layout.dynamicSlots) {part : Bytes} :
    rules.writePayload layout row slot = .ok part ↔
      ∃ cell, Stored.Written row ⟨slot.field, part, cell⟩ ∧ part.length ≤ rules.payloadLimit := by
  have type := sound.dynamicType member
  have varying := (Field.width?_eq_none_iff type).mp (sound.varying slot member)
  rw [writePayload, Outcome.bind_eq_ok]
  constructor
  · rintro ⟨payload, written, checked⟩
    obtain ⟨rfl, short⟩ := checkPayload_eq_ok_iff.mp checked
    obtain ⟨cell, holding⟩ := (Layout.writeDynamicSlot_eq_ok_iff type.kind varying).mp written
    exact ⟨cell, holding, short⟩
  · rintro ⟨cell, holding, short⟩
    exact ⟨part, (Layout.writeDynamicSlot_eq_ok_iff type.kind varying).mpr ⟨cell, holding⟩,
      checkPayload_eq_ok_iff.mpr ⟨rfl, short⟩⟩

theorem writePayloads_eq_ok_iff (sound : layout.Sound) {parts : List Bytes} :
    rules.writePayloads layout row = .ok parts ↔
      ∃ held : List Stored, held.map (·.field) = layout.dynamicSlots.map (·.field) ∧
        (∀ stored ∈ held, stored.Written row ∧ stored.part.length ≤ rules.payloadLimit) ∧
        held.map (·.part) = parts :=
  Layout.writeSlots_eq_ok_iff fun _ member _ => writePayload_eq_ok_iff sound member

theorem writeTail_eq_ok_iff (sound : layout.Sound) {bytes : Bytes} :
    rules.writeTail layout row = .ok bytes ↔
      ∃ held : List Stored, held.map (·.field) = layout.dynamicSlots.map (·.field) ∧
        (∀ stored ∈ held, stored.Written row ∧ stored.part.length ≤ rules.payloadLimit) ∧
        Stored.tail held = bytes := by
  unfold writeTail
  by_cases none : layout.dynamicSlots = []
  · have undynamic : layout.hasDynamic = false := by simp [Layout.hasDynamic, none]
    rw [undynamic, if_neg (by decide), none, Except.ok.injEq]
    constructor
    · rintro rfl
      exact ⟨[], rfl, by simp, rfl⟩
    · rintro ⟨held, fields, -, rfl⟩
      obtain rfl := List.map_eq_nil_iff.mp fields
      rfl
  · have dynamic : layout.hasDynamic = true := by simp [Layout.hasDynamic, none]
    have joins {held : List Stored}
        (fields : held.map (·.field) = layout.dynamicSlots.map (·.field))
        (short : ∀ stored ∈ held, stored.part.length ≤ rules.payloadLimit) :
        joinPayloads layout.table (held.map (·.part)) = .ok (Stored.tail held) := by
      have bounded : ∀ length ∈ Stored.lengths held, length ≤ Limits.maxDynamicLength := by
        intro length member
        obtain ⟨stored, inHeld, rfl⟩ := List.mem_map.mp member
        exact Nat.le_trans (short stored inHeld) (Nat.min_le_right _ _)
      have lengths : (held.map (·.part)).map List.length = Stored.lengths held :=
        List.map_map
      rw [joinPayloads, lengths, Lengths.toWord_eq_ok (sound.few_lengths fields).2 bounded,
        Stored.tail_eq none fields]
      rfl
    rw [dynamic, if_pos rfl, Outcome.bind_eq_ok]
    constructor
    · rintro ⟨parts, written, joined⟩
      obtain ⟨held, fields, all, rfl⟩ := (writePayloads_eq_ok_iff sound).mp written
      rw [joins fields fun stored member => (all stored member).2] at joined
      exact ⟨held, fields, all, Except.ok.inj joined⟩
    · rintro ⟨held, fields, all, rfl⟩
      exact ⟨held.map (·.part), (writePayloads_eq_ok_iff sound).mpr ⟨held, fields, all, rfl⟩,
        joins fields fun stored member => (all stored member).2⟩

/-! ## Whole records -/

/-- A row is written exactly as the filling that it makes. -/
theorem encode_eq_ok_iff (sound : layout.Sound) {record : Record} :
    rules.encode layout row = .ok record ↔
      (∀ name ∈ row.names, ∃ field ∈ layout.fields, field.name = name) ∧
        ∃ filling : Filling, filling.Fits layout ∧ filling.Writes rules row ∧
          filling.record = record := by
  unfold encode
  rw [← Layout.strangeName?_eq_none_iff]
  cases layout.strangeName? row with
  | some name => simp
  | none =>
      simp only [true_and]
      constructor
      · intro written
        obtain ⟨_, keyRun, written⟩ := Outcome.bind_eq_ok.mp written
        obtain ⟨_, blockRun, written⟩ := Outcome.bind_eq_ok.mp written
        obtain ⟨_, tailRun, written⟩ := Outcome.bind_eq_ok.mp written
        obtain rfl := Outcome.pure_eq_ok.mp written
        obtain ⟨key, keyFields, keyHolds, rfl⟩ := (Layout.writeKey_eq_ok_iff sound).mp keyRun
        obtain ⟨block, blockFields, blockWritten, rfl⟩ :=
          (Layout.writeBlock_eq_ok_iff sound).mp blockRun
        obtain ⟨payloads, payloadFields, payloadHolds, rfl⟩ :=
          (writeTail_eq_ok_iff sound).mp tailRun
        have keyWritten := fun stored member => (keyHolds stored member).1
        have payloadWritten := fun stored member => (payloadHolds stored member).1
        have short : ∀ length ∈ Stored.lengths payloads, length ≤ rules.payloadLimit := by
          intro length member
          obtain ⟨stored, held, rfl⟩ := List.mem_map.mp member
          exact (payloadHolds stored held).2
        have keyExact :=
          sound.keyRun.exact layout.keySpans_fields sound.keyTypes keyFields keyWritten
        have blockExact :=
          sound.fixedRun.exact layout.fixedSpans_fields sound.blockTypes blockFields blockWritten
        refine ⟨⟨key, block, payloads⟩, ⟨keyFields, blockFields, payloadFields, keyExact,
          blockExact, fun length member => ?_⟩,
          ⟨fun stored member => (keyHolds stored member).2, ?_, short⟩, rfl⟩
        · exact Nat.le_trans (short length member) (Nat.min_le_right _ _)
        · exact Filling.forall_all_iff.mpr ⟨keyWritten, blockWritten, payloadWritten⟩
      · rintro ⟨filling, fits, writes, rfl⟩
        obtain ⟨keyWritten, blockWritten, payloadWritten⟩ :=
          Filling.forall_all_iff.mp writes.written
        have short := fun stored (member : stored ∈ filling.payloads) =>
          writes.short _ (List.mem_map_of_mem member)
        have key := (Layout.writeKey_eq_ok_iff sound).mpr ⟨filling.key, fits.key,
          fun stored member => ⟨keyWritten stored member, writes.keyed stored member⟩, rfl⟩
        have block := (Layout.writeBlock_eq_ok_iff sound).mpr
          ⟨filling.block, fits.block, blockWritten, rfl⟩
        have tail := (writeTail_eq_ok_iff sound).mpr ⟨filling.payloads, fits.payloads,
          fun stored member => ⟨payloadWritten stored member, short stored member⟩, rfl⟩
        exact Outcome.bind_eq_ok.mpr ⟨_, key, Outcome.bind_eq_ok.mpr ⟨_, block,
          Outcome.bind_eq_ok.mpr ⟨_, tail, rfl⟩⟩⟩

end CodecRules

end PackedTables
