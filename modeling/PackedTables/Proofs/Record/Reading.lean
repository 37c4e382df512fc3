import PackedTables.Proofs.Outcome
import PackedTables.Proofs.Record.Filling

/-!
# Records that are read

A record is read when it is the record of a filling whose parts can be read, and then as the row of
that filling.  Reading a run of slots takes their parts, one by one, from what stands behind those
read before.
-/

namespace PackedTables

variable {rules : CodecRules} {front rest : Bytes}

/-! ## One stretch -/

theorem Layout.part_eq_ok_iff_slice? {bytes part : Bytes} {start width : Nat} :
    Layout.part bytes start width = .ok part ↔ bytes.slice? start width = some part := by
  unfold Layout.part
  cases bytes.slice? start width <;> simp

theorem Layout.part_eq_ok_iff {part : Bytes} {width : Nat} :
    Layout.part (front ++ rest) front.length width = .ok part ↔
      ∃ back, rest = part ++ back ∧ part.length = width := by
  rw [Layout.part_eq_ok_iff_slice?, Bytes.slice?_append_eq_some_iff]

namespace Field

variable {field : Field} {width : Nat} {entry : String × Cell}

/-- Fields of both widths are read alike, by one reader or the other. -/
theorem readStretch_eq_ok_iff {read : Bytes → Except ByteFlaw Cell} :
    (do
      let part ← Layout.part (front ++ rest) front.length width
      let cell ← (read part).mapError (RecordFlaw.inField field.name)
      return (field.name, cell)) = Except.ok entry ↔
      ∃ part back cell, rest = part ++ back ∧ part.length = width ∧ read part = .ok cell ∧
        (field.name, cell) = entry := by
  rw [Outcome.bind_eq_ok]
  constructor
  · rintro ⟨part, cut, continued⟩
    obtain ⟨back, placed, exact⟩ := Layout.part_eq_ok_iff.mp cut
    obtain ⟨cell, found, same⟩ := Outcome.bind_eq_ok.mp continued
    exact ⟨part, back, cell, placed, exact, Outcome.mapError_eq_ok.mp found,
      Outcome.pure_eq_ok.mp same⟩
  · rintro ⟨part, back, cell, placed, exact, found, same⟩
    refine ⟨part, Layout.part_eq_ok_iff.mpr ⟨back, placed, exact⟩, ?_⟩
    exact Outcome.bind_eq_ok.mpr
      ⟨cell, Outcome.mapError_eq_ok.mpr found, Outcome.pure_eq_ok.mpr same⟩

theorem readPart_eq_ok_iff (sound : field.type.Sound) (sized : field.width? = some width) :
    field.readPart rules (front ++ rest) front.length width = .ok entry ↔
      ∃ stored : Stored, ∃ back, stored.field = field ∧ stored.Exact ∧ stored.Reads rules ∧
        rest = stored.part ++ back ∧ stored.entry = entry := by
  have fixed := (Field.width?_eq_some_iff sound).mp sized
  refine readStretch_eq_ok_iff.trans ⟨?_, ?_⟩
  · rintro ⟨part, back, cell, placed, rfl, found, same⟩
    refine ⟨⟨field, part, cell⟩, back, rfl, sized, ?_, placed, same⟩
    exact (Kind.readStored_of_fixed fixed).trans found
  · rintro ⟨stored, back, rfl, exact, reads, placed, same⟩
    refine ⟨stored.part, back, stored.cell, placed, Option.some.inj (exact.symm.trans sized), ?_,
      same⟩
    exact (Kind.readStored_of_fixed fixed).symm.trans reads

theorem readPayloadPart_eq_ok_iff (sound : field.type.Sound) (varying : field.width? = none) :
    field.readPayloadPart rules (front ++ rest) front.length width = .ok entry ↔
      ∃ stored : Stored, ∃ back, stored.field = field ∧ stored.part.length = width ∧
        stored.Reads rules ∧ rest = stored.part ++ back ∧ stored.entry = entry := by
  have unfixed := (Field.width?_eq_none_iff sound).mp varying
  refine readStretch_eq_ok_iff.trans ⟨?_, ?_⟩
  · rintro ⟨part, back, cell, placed, exact, found, same⟩
    refine ⟨⟨field, part, cell⟩, back, rfl, exact, ?_, placed, same⟩
    exact (Kind.readStored_of_varying unfixed).trans found
  · rintro ⟨stored, back, rfl, exact, reads, placed, same⟩
    refine ⟨stored.part, back, stored.cell, placed, exact, ?_, same⟩
    exact (Kind.readStored_of_varying unfixed).symm.trans reads

end Field

/-! ## Runs of slots -/

/-- The parts of a run are found where they stand, each read for itself. -/
theorem Span.Run.read_eq_ok_iff {start stop : Nat} {spans : List Span}
    (run : Span.Run start spans stop) (rules : CodecRules)
    (types : ∀ span ∈ spans, span.field.type.Sound) (front rest : Bytes)
    (placed : front.length = start) (entries : List (String × Cell)) :
    spans.mapM (fun span =>
        span.field.readPart rules (front ++ rest) span.offset span.width) = .ok entries ↔
      ∃ held back, held.map Stored.field = spans.map (·.field) ∧
        (∀ stored ∈ held, stored.Exact) ∧ (∀ stored ∈ held, stored.Reads rules) ∧
        rest = Stored.joined held ++ back ∧ held.map Stored.entry = entries := by
  induction run generalizing front rest entries with
  | nil start =>
      constructor
      · intro read
        obtain rfl := Outcome.pure_eq_ok.mp read
        exact ⟨[], rest, rfl, by simp, by simp, rfl, rfl⟩
      · rintro ⟨held, back, fields, -, -, -, rfl⟩
        obtain rfl := List.map_eq_nil_iff.mp fields
        rfl
  | @cons field start width stop spans sized run ih =>
      subst placed
      have sound := types _ List.mem_cons_self
      have others := fun span member => types span (List.mem_cons_of_mem _ member)
      -- What stands behind the part read here is read behind the longer front.
      have behind (part back : Bytes) (exact : part.length = width) :=
        ih others (front ++ part) back (by rw [List.length_append, exact])
      simp only [List.append_assoc] at behind
      rw [List.mapM_cons, Outcome.bind_eq_ok]
      constructor
      · rintro ⟨entry, here, continued⟩
        obtain ⟨stored, back, rfl, exact, reads, rfl, rfl⟩ :=
          (Field.readPart_eq_ok_iff sound sized).mp here
        obtain ⟨found, there, same⟩ := Outcome.bind_eq_ok.mp continued
        obtain rfl := Outcome.pure_eq_ok.mp same
        have measured := Option.some.inj (exact.symm.trans sized)
        obtain ⟨held, back, fields, exacts, readAll, rfl, rfl⟩ := (behind _ _ measured _).mp there
        refine ⟨stored :: held, back, ?_, List.forall_mem_cons.mpr ⟨exact, exacts⟩,
          List.forall_mem_cons.mpr ⟨reads, readAll⟩, ?_, rfl⟩
        · rw [List.map_cons, fields, List.map_cons]
        · rw [Stored.joined_cons, List.append_assoc]
      · rintro ⟨held, back, fields, exacts, readAll, rfl, rfl⟩
        obtain ⟨stored, following, rfl, rfl, remaining⟩ := List.map_eq_cons_iff.mp fields
        obtain ⟨exact, exacts⟩ := List.forall_mem_cons.mp exacts
        obtain ⟨reads, readAll⟩ := List.forall_mem_cons.mp readAll
        have measured := Option.some.inj (exact.symm.trans sized)
        rw [Stored.joined_cons, List.append_assoc]
        refine ⟨stored.entry, (Field.readPart_eq_ok_iff sound sized).mpr
          ⟨stored, _, rfl, exact, reads, rfl, rfl⟩, ?_⟩
        refine Outcome.bind_eq_ok.mpr ⟨_, (behind _ _ measured _).mpr
          ⟨following, back, remaining, exacts, readAll, rfl, rfl⟩, rfl⟩

theorem CodecRules.readPayloads_cons (rules : CodecRules) (value : Bytes) (cursor length : Nat)
    (slot : DynamicSlot) (slots : List DynamicSlot) (lengths : List Nat) :
    rules.readPayloads value cursor (slot :: slots) (length :: lengths) = (do
      let entry ← slot.field.readPayloadPart rules value cursor length
      let entries ← rules.readPayloads value (cursor + length) slots lengths
      return entry :: entries) := by
  rw [readPayloads]
  cases slot.field.readPayloadPart rules value cursor length with
  | error flaw => rfl
  | ok entry =>
      cases rules.readPayloads value (cursor + length) slots lengths with
      | error flaw => rfl
      | ok entries => rfl

/-- Payloads are as long as the header says, and stand one behind the other. -/
theorem CodecRules.readPayloads_eq_ok_iff (rules : CodecRules) {slots : List DynamicSlot}
    {lengths : List Nat} (types : ∀ slot ∈ slots, slot.field.type.Sound)
    (varying : ∀ slot ∈ slots, slot.field.width? = none) (counted : lengths.length = slots.length)
    (front rest : Bytes) (entries : List (String × Cell)) :
    rules.readPayloads (front ++ rest) front.length slots lengths = .ok entries ↔
      ∃ held back, held.map Stored.field = slots.map (·.field) ∧ Stored.lengths held = lengths ∧
        (∀ stored ∈ held, stored.Reads rules) ∧ rest = Stored.joined held ++ back ∧
        held.map Stored.entry = entries := by
  induction slots generalizing lengths front rest entries with
  | nil =>
      obtain rfl := List.length_eq_zero_iff.mp counted
      constructor
      · intro read
        obtain rfl := Except.ok.inj read
        exact ⟨[], rest, rfl, rfl, by simp, rfl, rfl⟩
      · rintro ⟨held, back, fields, -, -, -, rfl⟩
        obtain rfl := List.map_eq_nil_iff.mp fields
        rfl
  | cons slot slots ih =>
      obtain ⟨length, lengths, rfl⟩ := List.exists_cons_of_length_eq_add_one counted
      have sound := types _ List.mem_cons_self
      have unfixed := varying _ List.mem_cons_self
      have behind (part back : Bytes) :=
        ih (fun other member => types other (List.mem_cons_of_mem _ member))
          (fun other member => varying other (List.mem_cons_of_mem _ member))
          (Nat.succ.inj counted) (front ++ part) back
      simp only [List.append_assoc, List.length_append] at behind
      rw [readPayloads_cons, Outcome.bind_eq_ok]
      constructor
      · rintro ⟨entry, here, continued⟩
        obtain ⟨stored, back, named, rfl, reads, rfl, rfl⟩ :=
          (Field.readPayloadPart_eq_ok_iff sound unfixed).mp here
        obtain ⟨found, there, same⟩ := Outcome.bind_eq_ok.mp continued
        obtain rfl := Outcome.pure_eq_ok.mp same
        obtain ⟨held, back, fields, rfl, readAll, rfl, rfl⟩ := (behind _ _ _).mp there
        refine ⟨stored :: held, back, ?_, rfl, List.forall_mem_cons.mpr ⟨reads, readAll⟩, ?_, rfl⟩
        · rw [List.map_cons, fields, List.map_cons, named]
        · rw [Stored.joined_cons, List.append_assoc]
      · rintro ⟨held, back, fields, sizes, readAll, rfl, rfl⟩
        obtain ⟨stored, following, rfl, named, remaining⟩ := List.map_eq_cons_iff.mp fields
        obtain ⟨rfl, rfl⟩ := List.cons.inj sizes
        obtain ⟨reads, readAll⟩ := List.forall_mem_cons.mp readAll
        rw [Stored.joined_cons, List.append_assoc]
        refine ⟨stored.entry, (Field.readPayloadPart_eq_ok_iff sound unfixed).mpr
          ⟨stored, _, named, rfl, reads, rfl, rfl⟩, ?_⟩
        exact Outcome.bind_eq_ok.mpr ⟨_, (behind _ _ _).mpr
          ⟨following, back, remaining, rfl, readAll, rfl, rfl⟩, rfl⟩

/-! ## Parts of a record -/

namespace CodecRules

variable {layout : Layout} {entries : List (String × Cell)}

/-- Slots of a whole run, from the first byte on. -/
theorem readSlots_eq_ok_iff {slotType : Type} {slots : List slotType} {span : slotType → Span}
    {stop : Nat} (run : Span.Run 0 (slots.map span) stop) (rules : CodecRules)
    (types : ∀ slot ∈ slots, (span slot).field.type.Sound) (bytes : Bytes) :
    slots.mapM (fun slot => (span slot).field.readPart rules bytes (span slot).offset
        (span slot).width) = .ok entries ↔
      ∃ held back, held.map Stored.field = slots.map (fun slot => (span slot).field) ∧
        (∀ stored ∈ held, stored.Exact) ∧ (∀ stored ∈ held, stored.Reads rules) ∧
        bytes = Stored.joined held ++ back ∧ held.map Stored.entry = entries := by
  have types : ∀ span' ∈ slots.map span, span'.field.type.Sound := by
    intro span' member
    obtain ⟨slot, inSlots, rfl⟩ := List.mem_map.mp member
    exact types slot inSlots
  have read := run.read_eq_ok_iff rules types [] bytes rfl entries
  rw [List.mapM_map, List.map_map] at read
  exact read

theorem checkKeyLength_eq_ok_iff {key : Bytes} :
    layout.checkKeyLength key = .ok () ↔ key.length = layout.keyLength := by
  unfold Layout.checkKeyLength
  split <;> simp_all

theorem readKey_eq_ok_iff (sound : layout.Sound) {key : Bytes} :
    (layout.checkKeyLength key = .ok () ∧ rules.readKey layout key = .ok entries) ↔
      ∃ held, held.map Stored.field = layout.keySlots.map (·.field) ∧
        (∀ stored ∈ held, stored.Exact) ∧ (∀ stored ∈ held, stored.Reads rules) ∧
        Stored.joined held = key ∧ held.map Stored.entry = entries := by
  have slots : rules.readKey layout key = .ok entries ↔ _ :=
    readSlots_eq_ok_iff sound.keyRun rules (fun _ => sound.keyType) key
  rw [checkKeyLength_eq_ok_iff, slots]
  constructor
  · rintro ⟨whole, held, back, fields, exact, reads, rfl, same⟩
    have length := sound.length_key fields exact
    rw [List.length_append, length] at whole
    obtain rfl := List.length_eq_zero_iff.mp (show back.length = 0 by omega)
    exact ⟨held, fields, exact, reads, (List.append_nil _).symm, same⟩
  · rintro ⟨held, fields, exact, reads, rfl, same⟩
    exact ⟨sound.length_key fields exact, held, [], fields, exact, reads,
      (List.append_nil _).symm, same⟩

theorem readBlock_eq_ok_iff (sound : layout.Sound) {value : Bytes} :
    rules.readBlock layout value = .ok entries ↔
      ∃ held tail, held.map Stored.field = layout.fixedSlots.map (·.field) ∧
        (∀ stored ∈ held, stored.Exact) ∧ (∀ stored ∈ held, stored.Reads rules) ∧
        Stored.joined held ++ tail = value ∧ held.map Stored.entry = entries := by
  have slots : layout.fixedSlots.mapM (fun slot =>
      slot.field.readPart rules value slot.offset slot.width) = .ok entries ↔ _ :=
    readSlots_eq_ok_iff sound.fixedRun rules (fun _ => sound.fixedType) value
  unfold readBlock
  constructor
  · intro read
    split at read
    · cases read
    · obtain ⟨held, tail, fields, exact, reads, rfl, same⟩ := slots.mp read
      exact ⟨held, tail, fields, exact, reads, rfl, same⟩
  · rintro ⟨held, tail, fields, exact, reads, rfl, same⟩
    have length := sound.length_block fields exact
    rw [if_neg (by rw [List.length_append]; omega)]
    exact slots.mpr ⟨held, tail, fields, exact, reads, rfl, same⟩

/-! ## Headers and payloads -/

theorem readLengths_eq_ok_iff (sound : layout.Sound) {block tail : Bytes} {lengths : List Nat}
    (placed : block.length = layout.staticLength) :
    layout.readLengths (block ++ tail) = .ok lengths ↔
      lengths.length = layout.dynamicSlots.length ∧
        (∀ length ∈ lengths, length ≤ Limits.maxDynamicLength) ∧
        ∃ payloads, tail = Lengths.pack lengths ++ payloads := by
  unfold Layout.readLengths
  rw [← placed]
  constructor
  · intro read
    split at read
    · rename_i word found
      obtain ⟨payloads, rfl, -⟩ := Bytes.slice?_append_eq_some_iff.mp found
      obtain ⟨counted, bounded, rfl⟩ :=
        (Lengths.ofWord_eq_ok_iff sound.within.fewDynamic).mp read
      exact ⟨counted, bounded, payloads, rfl⟩
    · cases read
  · rintro ⟨counted, bounded, payloads, rfl⟩
    have found : (block ++ (Lengths.pack lengths ++ payloads)).slice? block.length
        Lengths.wordLength = some (Lengths.pack lengths) :=
      Bytes.slice?_append_eq_some_iff.mpr ⟨payloads, rfl, Lengths.length_pack lengths⟩
    rw [found]
    exact (Lengths.ofWord_eq_ok_iff sound.within.fewDynamic).mpr ⟨counted, bounded, rfl⟩

theorem readTail_eq_ok_iff (sound : layout.Sound) {block tail : Bytes}
    (placed : block.length = layout.staticLength) :
    rules.readTail layout (block ++ tail) = .ok entries ↔
      ∃ held, held.map Stored.field = layout.dynamicSlots.map (·.field) ∧
        (∀ length ∈ Stored.lengths held, length ≤ Limits.maxDynamicLength) ∧
        (∀ stored ∈ held, stored.Reads rules) ∧ Stored.tail held = tail ∧
        held.map Stored.entry = entries := by
  unfold readTail
  by_cases none : layout.dynamicSlots = []
  · have undynamic : layout.hasDynamic = false := by simp [Layout.hasDynamic, none]
    rw [undynamic, if_neg (by decide), none, List.length_append, placed]
    constructor
    · intro read
      split at read
      · rename_i whole
        obtain rfl := Except.ok.inj read
        obtain rfl := List.length_eq_zero_iff.mp (show tail.length = 0 by omega)
        exact ⟨[], rfl, by simp [Stored.lengths], by simp, rfl, rfl⟩
      · cases read
    · rintro ⟨held, fields, -, -, rfl, rfl⟩
      obtain rfl := List.map_eq_nil_iff.mp fields
      exact if_pos rfl
  · have dynamic : layout.hasDynamic = true := by simp [Layout.hasDynamic, none]
    have start (lengths : List Nat) :
        layout.payloadStart = (block ++ Lengths.pack lengths).length := by
      rw [List.length_append, placed, Lengths.length_pack, Layout.payloadStart]
    rw [dynamic, if_pos rfl]
    constructor
    · intro read
      split at read
      · cases read
      · rename_i lengths found
        obtain ⟨counted, bounded, payloads, rfl⟩ := (readLengths_eq_ok_iff sound placed).mp found
        simp only at read
        split at read
        · rename_i whole
          rw [← List.append_assoc, start lengths] at read
          obtain ⟨held, back, fields, rfl, reads, rfl, same⟩ := (readPayloads_eq_ok_iff rules
            (fun _ => sound.dynamicType) sound.varying counted _ _ _).mp read
          rw [start (Stored.lengths held), ← List.append_assoc, List.length_append,
            List.length_append, List.length_append, Stored.length_joined, Lengths.total] at whole
          obtain rfl := List.length_eq_zero_iff.mp (show back.length = 0 by omega)
          refine ⟨held, fields, bounded, reads, ?_, same⟩
          rw [Stored.tail_eq none fields, List.append_nil]
        · cases read
    · rintro ⟨held, fields, bounded, reads, rfl, same⟩
      have counted := (sound.few_lengths fields).1
      rw [Stored.tail_eq none fields,
        (readLengths_eq_ok_iff sound placed).mpr ⟨counted, bounded, _, rfl⟩]
      simp only
      rw [if_pos, ← List.append_assoc, start (Stored.lengths held)]
      · exact (readPayloads_eq_ok_iff rules (fun _ => sound.dynamicType) sound.varying counted
          _ _ _).mpr ⟨held, [], fields, rfl, reads, (List.append_nil _).symm, same⟩
      · rw [start (Stored.lengths held), ← List.append_assoc, List.length_append,
          Stored.length_joined, Lengths.total]

/-! ## Whole records -/

/-- A record is read exactly as the filling that it comes from. -/
theorem decode_eq_ok_iff (sound : layout.Sound) {record : Record} {row : Row} :
    rules.decode layout record = .ok row ↔
      ∃ filling : Filling, filling.Fits layout ∧ (∀ stored ∈ filling.all, stored.Reads rules) ∧
        filling.record = record ∧ filling.row = row := by
  rw [decode, Outcome.mapError_eq_ok, Outcome.map_eq_ok]
  constructor
  · rintro ⟨entries, read, rfl⟩
    obtain ⟨_, whole, read⟩ := Outcome.bind_eq_ok.mp read
    obtain ⟨keyEntries, keyRead, read⟩ := Outcome.bind_eq_ok.mp read
    obtain ⟨blockEntries, blockRead, read⟩ := Outcome.bind_eq_ok.mp read
    obtain ⟨tailEntries, tailRead, read⟩ := Outcome.bind_eq_ok.mp read
    obtain rfl := Outcome.pure_eq_ok.mp read
    obtain ⟨key, keyFields, keyExact, keyReads, keySame, rfl⟩ :=
      (readKey_eq_ok_iff sound).mp ⟨whole, keyRead⟩
    obtain ⟨block, tail, blockFields, blockExact, blockReads, blockSame, rfl⟩ :=
      (readBlock_eq_ok_iff sound).mp blockRead
    rw [← blockSame] at tailRead
    obtain ⟨payloads, payloadFields, bounded, payloadReads, rfl, rfl⟩ :=
      (readTail_eq_ok_iff sound (sound.length_block blockFields blockExact)).mp tailRead
    refine ⟨⟨key, block, payloads⟩,
      ⟨keyFields, blockFields, payloadFields, keyExact, blockExact, bounded⟩, ?_, ?_, ?_⟩
    · exact Filling.forall_all_iff.mpr ⟨keyReads, blockReads, payloadReads⟩
    · cases record
      exact congrArg₂ Record.mk keySame blockSame
    · rw [Filling.row, Filling.all, List.map_append, List.map_append]
  · rintro ⟨filling, fits, reads, rfl, rfl⟩
    obtain ⟨keyReads, blockReads, payloadReads⟩ := Filling.forall_all_iff.mp reads
    obtain ⟨whole, key⟩ := (readKey_eq_ok_iff sound).mpr
      ⟨filling.key, fits.key, fits.keyExact, keyReads, rfl, rfl⟩
    have block := (readBlock_eq_ok_iff sound).mpr
      ⟨filling.block, Stored.tail filling.payloads, fits.block, fits.blockExact, blockReads, rfl,
        rfl⟩
    have tail := (readTail_eq_ok_iff sound (sound.length_block fits.block fits.blockExact)).mpr
      ⟨filling.payloads, fits.payloads, fits.bounded, payloadReads, rfl, rfl⟩
    refine ⟨filling.all.map Stored.entry, ?_, rfl⟩
    refine Outcome.bind_eq_ok.mpr ⟨(), whole, Outcome.bind_eq_ok.mpr ⟨_, key, ?_⟩⟩
    refine Outcome.bind_eq_ok.mpr ⟨_, block, Outcome.bind_eq_ok.mpr ⟨_, tail, ?_⟩⟩
    rw [Filling.all, List.map_append, List.map_append]
    rfl

end CodecRules

end PackedTables
