import PackedTables.Proofs.Layout.Extent
import PackedTables.Proofs.Layout.Position
import PackedTables.Proofs.Machine.Part
import PackedTables.Proofs.Record.RoundTrip

/-!
# Reading never traps

A machine that reads records of a planned layout takes every step: what it needs of offsets, widths
and header lengths is so for every record.  So it answers as the reader without words does, and of
the flaws only those are left that a record itself can have.
-/

namespace PackedTables

theorem CodecRules.readTail_eq (rules : CodecRules) (layout : Layout) (value : Bytes) :
    rules.readTail layout value =
      if layout.hasDynamic then do
        let lengths ← layout.readLengths value
        if value.length = layout.payloadStart + Lengths.total lengths then
          rules.readPayloads value layout.payloadStart layout.dynamicSlots lengths
        else .error (.valueLength value.length (layout.payloadStart + Lengths.total lengths))
      else if value.length = layout.staticLength then .ok []
      else .error (.blockLength value.length layout.staticLength) := by
  unfold readTail
  cases layout.readLengths value <;> rfl

/-- Lengths that a header holds are as many as there are payloads, and small. -/
theorem Layout.Sound.lengths_of_readLengths {layout : Layout} (sound : layout.Sound)
    {value : Bytes} {lengths : List Nat} (read : layout.readLengths value = .ok lengths) :
    lengths.length = layout.dynamicSlots.length ∧
      layout.payloadStart + Lengths.total lengths ≤ Numeral.maxWord := by
  unfold readLengths at read
  split at read
  · obtain ⟨counted, bounded, -⟩ := (Lengths.ofWord_eq_ok_iff sound.within.fewDynamic).mp read
    refine ⟨counted, Nat.le_trans (Nat.add_le_add_right ?_ _)
      (Machine.total_le_maxWord (counted ▸ sound.within.fewDynamic) bounded)⟩
    exact Nat.add_le_add_right sound.within.shortBlock _
  · cases read

namespace Machine

variable {rules : CodecRules} {layout : Layout} {field : Field} {bytes : Bytes}

theorem readField_follows (rules : CodecRules) (sound : field.type.Sound)
    (sized : field.width? = some bytes.length) :
    Follows (·.isPossible = true) (readField rules field bytes) (field.read rules bytes) :=
  (read_follows (Field.scalar_of_width? sound sized)
    ((Field.width?_eq_some_iff sound).mp sized)).mapRefusal fun _ possible => possible

theorem readPayloadField_follows (rules : CodecRules) (sound : field.type.Sound)
    (varying : field.width? = none) :
    Follows (·.isPossible = true) (readPayloadField rules field bytes)
      (field.readPayload rules bytes) :=
  (readPayload_follows sound.kind ((Field.width?_eq_none_iff sound).mp varying)).mapRefusal
    fun _ possible => possible

theorem part_follows {start width : Nat} (small : start + width ≤ Numeral.maxWord)
    (inside : start + width ≤ bytes.length) :
    Follows (·.isPossible = true) (part bytes start width) (Layout.part bytes start width) := by
  have cut := Bytes.slice?_eq_some inside
  rw [Layout.part_eq_ok_iff_slice?.mpr cut]
  exact .step (add_eq small) (stretch_eq cut ▸ .ok _)

/-- Runs of slots lie inside what they are read from. -/
theorem readSlots_follows {slotType : Type} {slots : List slotType} {span : slotType → Span}
    {stop : Nat} (run : Span.Run 0 (slots.map span) stop) (rules : CodecRules)
    (types : ∀ slot ∈ slots, (span slot).field.type.Sound) (small : stop ≤ Numeral.maxWord)
    (long : stop ≤ bytes.length) :
    Follows (·.isPossible = true) (slots.mapM fun slot => readPart rules bytes (span slot))
      (slots.mapM fun slot => (span slot).field.readPart rules bytes (span slot).offset
        (span slot).width) := by
  refine .mapM fun slot member => ?_
  have listed : span slot ∈ slots.map span := List.mem_map_of_mem member
  have inside := run.inside _ listed
  refine (part_follows (Nat.le_trans inside small) (Nat.le_trans inside long)).bind ?_
  intro piece cut
  refine (readField_follows rules (types slot member) ?_).bind fun cell _ => .ok _
  rw [Bytes.length_of_slice? (Layout.part_eq_ok_iff_slice?.mp cut)]
  exact run.sized _ listed

theorem readLengths_follows (sound : layout.Sound) (value : Bytes) :
    Follows (·.isPossible = true) (readLengths layout value) (layout.readLengths value) := by
  have small : layout.staticLength + Lengths.wordLength ≤ Numeral.maxWord :=
    Nat.le_trans (Nat.add_le_add_right sound.within.shortBlock _) (by decide)
  unfold readLengths Layout.readLengths
  refine .step (add_eq small) ?_
  rw [stretch?_eq]
  cases found : value.slice? layout.staticLength Lengths.wordLength with
  | none => exact .refuse rfl
  | some word => exact ofWord_follows (Bytes.length_of_slice? found) sound.within.fewDynamic

/-- Payloads end where their lengths add up to, and no cursor gets further. -/
theorem readPayloads_follows {value : Bytes} (small : value.length ≤ Numeral.maxWord)
    {slots : List DynamicSlot} {lengths : List Nat} {cursor : Nat}
    (types : ∀ slot ∈ slots, slot.field.type.Sound)
    (varying : ∀ slot ∈ slots, slot.field.width? = none)
    (inside : cursor + Bytes.joinedLength lengths ≤ value.length) :
    Follows (·.isPossible = true) (readPayloads rules value cursor slots lengths)
      (rules.readPayloads value cursor slots lengths) := by
  induction slots generalizing cursor lengths with
  | nil => exact .ok []
  | cons slot slots ih =>
      cases lengths with
      | nil => exact .ok []
      | cons length lengths =>
          obtain ⟨type, types⟩ := List.forall_mem_cons.mp types
          obtain ⟨unfixed, varying⟩ := List.forall_mem_cons.mp varying
          rw [Bytes.joinedLength, ← Nat.add_assoc] at inside
          have here : cursor + length ≤ value.length := by omega
          have cut := Bytes.slice?_eq_some here
          rw [CodecRules.readPayloads_cons, readPayloads, Field.readPayloadPart,
            Layout.part_eq_ok_iff_slice?.mpr cut, Outcome.ok_bind, bind_assoc]
          refine .step (add_eq (Nat.le_trans here small)) (.step (stretch_eq cut) ?_)
          refine (readPayloadField_follows rules type unfixed).bind fun cell _ => ?_
          exact (ih types varying inside).bind fun entries _ => .ok _

theorem readTail_follows (sound : layout.Sound) (value : Bytes) :
    Follows (·.isPossible = true) (readTail rules layout value) (rules.readTail layout value) := by
  rw [CodecRules.readTail_eq]
  refine .ite (fun _ => ?_) fun _ => .ite (fun _ => .ok _) fun _ => .refuse rfl
  refine (readLengths_follows sound value).bind fun lengths read => ?_
  have small := (sound.lengths_of_readLengths read).2
  have start : layout.payloadStart ≤ Numeral.maxWord :=
    Nat.le_trans (Nat.le_add_right _ _) small
  refine .step (add_eq start) ?_
  refine .step (sum_eq (Nat.le_trans (Nat.le_add_left _ _) small)) (.step (add_eq small) ?_)
  refine .ite (fun whole => ?_) fun _ => .refuse rfl
  refine readPayloads_follows ?_ (fun _ => sound.dynamicType) sound.varying (Nat.le_of_eq ?_)
  · exact whole ▸ small
  · exact whole.symm

/-! ## Whole records -/

theorem possible_of_checkKeyLength {key : Bytes} {flaw : RecordFlaw}
    (refused : layout.checkKeyLength key = .error flaw) : flaw.isPossible = true := by
  unfold Layout.checkKeyLength at refused
  split at refused
  · cases refused
  · exact Except.error.inj refused ▸ rfl

theorem readCells_follows (sound : layout.Sound) (record : Record) :
    Follows (·.isPossible = true) (readCells rules layout record)
      (rules.readCells layout record) := by
  refine (Follows.lift fun _ => possible_of_checkKeyLength).bind fun _ checked => ?_
  have whole := CodecRules.checkKeyLength_eq_ok_iff.mp checked
  have key : Follows (·.isPossible = true) (readKey rules layout record.key)
      (rules.readKey layout record.key) :=
    readSlots_follows sound.keyRun rules (fun _ => sound.keyType) sound.keyLength_le_maxWord
      (Nat.le_of_eq whole.symm)
  have block : Follows (·.isPossible = true) (readBlock rules layout record.value)
      (rules.readBlock layout record.value) := by
    refine .ite (fun _ => .refuse rfl) fun long => ?_
    exact readSlots_follows sound.fixedRun rules (fun _ => sound.fixedType)
      sound.staticLength_le_maxWord (Nat.le_of_not_lt long)
  refine key.bind fun keyEntries _ => block.bind fun blockEntries _ => ?_
  exact (readTail_follows sound record.value).bind fun tailEntries _ => .ok _

/-- Causes for which a record of a table is refused. -/
def Malformed (table : String) (fault : Fault) : Prop :=
  ∃ flaw : RecordFlaw, flaw.isPossible = true ∧ fault = .malformedRecord table flaw

theorem decode_follows (sound : layout.Sound) (record : Record) :
    Follows (Malformed layout.table) (decode rules layout record) (rules.decode layout record) :=
  ((readCells_follows sound record).map Row.ofList).mapRefusal fun flaw possible =>
    ⟨flaw, possible, rfl⟩

/-! ## Single fields and keys -/

theorem readFixedSlot_follows (sound : layout.Sound) {slot : FixedSlot}
    (member : slot ∈ layout.fixedSlots) (record : Record) :
    Follows (·.isPossible = true) (readAt rules layout record (.fixed slot))
      (rules.readAt layout record (.fixed slot)) := by
  have inside : slot.offset + slot.width ≤ layout.staticLength :=
    sound.fixedRun.inside slot.span (List.mem_map_of_mem member)
  change Follows _ _ (rules.readFixedSlot record.value slot)
  rw [CodecRules.readFixedSlot]
  refine .step (add_eq (Nat.le_trans inside sound.staticLength_le_maxWord)) ?_
  rw [stretch?_eq]
  cases found : record.value.slice? slot.offset slot.width with
  | none => exact .refuse rfl
  | some piece =>
      refine readField_follows rules (sound.fixedType member) ?_
      rw [Bytes.length_of_slice? found]
      exact sound.fixedWidth member

theorem readKeySlot_follows (sound : layout.Sound) {slot : KeySlot}
    (member : slot ∈ layout.keySlots) (record : Record) :
    Follows (·.isPossible = true) (readAt rules layout record (.key slot))
      (rules.readAt layout record (.key slot)) := by
  have inside : slot.offset + slot.width ≤ layout.keyLength :=
    sound.keyRun.inside slot.span (List.mem_map_of_mem member)
  change Follows _ _ (rules.readKeySlot layout record.key slot)
  refine (Follows.lift fun _ => possible_of_checkKeyLength).bind fun _ checked => ?_
  have whole := CodecRules.checkKeyLength_eq_ok_iff.mp checked
  have small := Nat.le_trans inside sound.keyLength_le_maxWord
  refine (part_follows small (whole ▸ inside)).bind fun piece cut => ?_
  refine readField_follows rules (sound.keyType member) ?_
  rw [Bytes.length_of_slice? (Layout.part_eq_ok_iff_slice?.mp cut)]
  exact sound.keyWidth member

theorem readDynamicSlot_follows (sound : layout.Sound) {slot : DynamicSlot}
    (member : slot ∈ layout.dynamicSlots) (record : Record) :
    Follows (·.isPossible = true) (readAt rules layout record (.dynamic slot))
      (rules.readAt layout record (.dynamic slot)) := by
  change Follows _ (readDynamicSlot rules layout record.value slot)
    (rules.readDynamicSlot layout record.value slot)
  refine (readLengths_follows sound record.value).bind fun lengths read => ?_
  obtain ⟨counted, small⟩ := sound.lengths_of_readLengths read
  have inside : slot.ordinal < lengths.length := counted ▸ sound.ordinal_lt member
  obtain ⟨length, found⟩ : ∃ length, lengths[slot.ordinal]? = some length :=
    ⟨_, List.getElem?_eq_getElem inside⟩
  -- A payload starts and stops before the sum of all lengths, which is small.
  have within := Bytes.joinedLength_take_add_le found
  have before : (stretch lengths 0 slot.ordinal : Run RecordFlaw (List Nat)) =
      .ok (lengths.take slot.ordinal) := by
    rw [stretch, stretch?, if_pos ⟨Nat.zero_le _, Nat.le_of_lt inside⟩]
    rfl
  unfold Lengths.total at small
  have start : layout.payloadStart + Bytes.joinedLength (lengths.take slot.ordinal) ≤
      Numeral.maxWord := by
    omega
  refine .step (add_eq (Nat.le_trans (Nat.le_add_right _ _) start)) (.step before ?_)
  refine .step (sum_eq (Nat.le_trans (Nat.le_add_left _ _) start)) (.step (add_eq start) ?_)
  refine .step (item_eq found) (.step (add_eq ?_) ?_)
  · change layout.payloadStart + _ + _ ≤ _
    omega
  · rw [stretch?_eq]
    simp only [found, Option.getD_some, Lengths.total, Layout.payloadStart]
    generalize record.value.slice? _ length = cut
    cases cut with
    | none => exact .refuse rfl
    | some piece =>
        exact readPayloadField_follows rules (sound.dynamicType member)
          (sound.varying slot member)

theorem decodeField_follows (sound : layout.Sound) (record : Record) (name : String) :
    Follows (fun fault => Malformed layout.table fault ∨
        (∀ field ∈ layout.fields, field.name ≠ name) ∧ fault = .unknownField layout.table name)
      (decodeField rules layout record name) (rules.decodeField layout record name) := by
  unfold decodeField CodecRules.decodeField
  cases found : layout.position? name with
  | none => exact .refuse (.inr ⟨Layout.position?_eq_none_iff.mp found, rfl⟩)
  | some position =>
      have read : Follows (·.isPossible = true) (readAt rules layout record position)
          (rules.readAt layout record position) := by
        rcases Layout.mem_positions.mp (sound.position?_eq_some_iff.mp found).1 with
          ⟨slot, member, rfl⟩ | ⟨slot, member, rfl⟩ | ⟨slot, member, rfl⟩
        · exact readKeySlot_follows sound member record
        · exact readFixedSlot_follows sound member record
        · exact readDynamicSlot_follows sound member record
      exact read.mapRefusal fun flaw possible => .inl ⟨flaw, possible, rfl⟩

theorem keyTuple_follows (sound : layout.Sound) (key : Bytes) :
    Follows (Malformed layout.table) (keyTuple layout key) (layout.keyTuple key) := by
  have pieces : Follows (·.isPossible = true)
      (lift (layout.checkKeyLength key) >>= fun _ =>
        layout.keySlots.mapM fun slot => part key slot.offset slot.width)
      (layout.checkKeyLength key >>= fun _ =>
        layout.keySlots.mapM fun slot => Layout.part key slot.offset slot.width) := by
    refine (Follows.lift fun _ => possible_of_checkKeyLength).bind fun _ checked => ?_
    have whole := CodecRules.checkKeyLength_eq_ok_iff.mp checked
    refine .mapM fun slot member => ?_
    have inside : slot.offset + slot.width ≤ layout.keyLength :=
      sound.keyRun.inside slot.span (List.mem_map_of_mem member)
    exact part_follows (Nat.le_trans inside sound.keyLength_le_maxWord) (whole ▸ inside)
  exact pieces.mapRefusal fun flaw possible => ⟨flaw, possible, rfl⟩

/-! ## Planned layouts -/

/--
No record of a planned layout makes the machine trap.  It answers what the reader without words
answers, and what it refuses it refuses as malformed, for a flaw that a record can have, or for a
name that is no field.
-/
theorem reads_without_trap {registry : Registry} {limits : SchemaRules} {schemaRules : SchemaRules}
    {declaration : TableDeclaration} {schema : Schema} (reachable : registry.Reachable)
    (validated : schemaRules.validate registry declaration = .ok schema)
    (planned : Layout.plan limits schema = .ok layout) (codec : CodecRules) :
    (∀ record, decode codec layout record = lift (codec.decode layout record) ∧
        ∀ fault, codec.decode layout record = .error fault → Malformed schema.name fault) ∧
      (∀ record name,
        decodeField codec layout record name = lift (codec.decodeField layout record name) ∧
          ∀ fault, codec.decodeField layout record name = .error fault →
            Malformed schema.name fault ∨
              (∀ field ∈ schema.fields, field.name ≠ name) ∧
                fault = .unknownField schema.name name) ∧
      ∀ key, keyTuple layout key = lift (layout.keyTuple key) ∧
        ∀ fault, layout.keyTuple key = .error fault → Malformed schema.name fault := by
  have stores := Layout.stores_of_plan reachable validated planned
  have sound := stores.sound
  rw [← stores.table]
  refine ⟨fun record => ?_, fun record name => ?_, fun key => ?_⟩
  · exact ⟨(decode_follows sound record).same, (decode_follows sound record).refusals⟩
  · have follows : Follows _ (decodeField codec layout record name) _ :=
      decodeField_follows sound record name
    refine ⟨follows.same, fun fault refused => ?_⟩
    exact (follows.refusals fault refused).imp_right fun ⟨strange, same⟩ =>
      ⟨fun field member => strange field (stores.fields.mem_iff.mpr member), same⟩
  · exact ⟨(keyTuple_follows sound key).same, (keyTuple_follows sound key).refusals⟩

/-- A whole record of a player, one cut short, and its key. -/
theorem reads_without_trap_player :
    decode {} Player.layout Player.record = .ok Player.wholeRow ∧
      decodeField {} Player.layout ⟨Player.record.key, Player.record.value.take 39⟩ "spot" =
        refuse (.malformedRecord "Player" (.payloadEnd "spot" 39)) ∧
      keyTuple Player.layout Player.record.key = .ok [[0, 0, 0, 7]] := by
  obtain ⟨whole, single, keys⟩ := reads_without_trap .standard Player.validate_declaration
    Player.plan_schema {}
  rw [(whole _).1, (single _ _).1, (keys _).1, Player.decode_record]
  refine ⟨rfl, ?_, ?_⟩
  · decide +kernel
  · decide +kernel

end Machine

end PackedTables
