import PackedTables.Proofs.Layout.Position
import PackedTables.Proofs.Record.Cutting
import PackedTables.Proofs.Record.Refusal

/-!
# Single fields

A field that is read by itself is read from the part of a record that the whole record is read from.
So a record is read exactly when it has the length that its header calls for and each of its fields
can be read, and then as the cells of its fields.
-/

namespace PackedTables

/-- What a part reads as, under the name of its field. -/
def Stored.outcome (rules : CodecRules) (stored : Stored) : Except RecordFlaw Cell :=
  (stored.field.type.kind.readStored rules.strictBool stored.part).mapError
    (.inField stored.field.name)

theorem Stored.outcome_eq_ok_iff {rules : CodecRules} {stored : Stored} :
    stored.outcome rules = .ok stored.cell ↔ stored.Reads rules :=
  Outcome.mapError_eq_ok

theorem Stored.outcome_of_fixed (rules : CodecRules) {stored : Stored}
    (sound : stored.field.type.Sound) {width : Nat} (sized : stored.field.width? = some width) :
    stored.outcome rules = stored.field.read rules stored.part := by
  rw [outcome, Kind.readStored_of_fixed ((Field.width?_eq_some_iff sound).mp sized)]
  rfl

theorem Stored.outcome_of_varying (rules : CodecRules) {stored : Stored}
    (sound : stored.field.type.Sound) (varying : stored.field.width? = none) :
    stored.outcome rules = stored.field.readPayload rules stored.part := by
  rw [outcome, Kind.readStored_of_varying ((Field.width?_eq_none_iff sound).mp varying)]
  rfl

/-! ## Parts of a filling -/

namespace Stored

theorem joined_eq_of_getElem? {held : List Stored} {place : Nat} {stored : Stored}
    (here : held[place]? = some stored) :
    joined held = joined (held.take place) ++ (stored.part ++ joined (held.drop (place + 1))) := by
  obtain ⟨inside, rfl⟩ := List.getElem?_eq_some_iff.mp here
  have split : held = held.take place ++ held[place] :: held.drop (place + 1) := by
    rw [← List.drop_eq_getElem_cons inside, List.take_append_drop]
  rw [← joined_cons, joined, joined, joined, ← List.flatten_append, ← List.map_append, ← split]

end Stored

namespace Filling.Fits

variable {layout : Layout} {filling : Filling}

theorem readKeySlot_eq (fits : filling.Fits layout) (sound : layout.Sound) (rules : CodecRules)
    {slot : KeySlot} (member : slot ∈ layout.keySlots) :
    ∃ stored ∈ filling.all, stored.field = slot.field ∧
      rules.readKeySlot layout filling.record.key slot = stored.outcome rules := by
  have spans := fits.key.trans layout.keySpans_fields.symm
  obtain ⟨stored, held, named, found⟩ := sound.keyRun.part_eq spans fits.keyExact [] [] rfl
    slot.span (List.mem_map_of_mem member)
  rw [List.nil_append, List.append_nil] at found
  have whole : layout.checkKeyLength filling.record.key = .ok () :=
    CodecRules.checkKeyLength_eq_ok_iff.mpr (sound.length_key fits.key fits.keyExact)
  have cut : Layout.part filling.record.key slot.offset slot.width = .ok stored.part := found
  have inAll : stored ∈ filling.all := List.mem_append_left _ (List.mem_append_left _ held)
  refine ⟨stored, inAll, named, ?_⟩
  rw [Stored.outcome_of_fixed rules (fits.type sound inAll) (fits.keyExact stored held), named,
    CodecRules.readKeySlot, whole, Outcome.ok_bind, cut, Outcome.ok_bind]
  rfl

theorem readFixedSlot_eq (fits : filling.Fits layout) (sound : layout.Sound) (rules : CodecRules)
    {slot : FixedSlot} (member : slot ∈ layout.fixedSlots) :
    ∃ stored ∈ filling.all, stored.field = slot.field ∧
      rules.readFixedSlot filling.record.value slot = stored.outcome rules := by
  have spans := fits.block.trans layout.fixedSpans_fields.symm
  obtain ⟨stored, held, named, found⟩ := sound.fixedRun.part_eq spans fits.blockExact []
    (Stored.tail filling.payloads) rfl slot.span (List.mem_map_of_mem member)
  have cut : filling.record.value.slice? slot.offset slot.width = some stored.part :=
    Layout.part_eq_ok_iff_slice?.mp found
  have inAll : stored ∈ filling.all := List.mem_append_left _ (List.mem_append_right _ held)
  refine ⟨stored, inAll, named, ?_⟩
  rw [Stored.outcome_of_fixed rules (fits.type sound inAll) (fits.blockExact stored held), named,
    CodecRules.readFixedSlot, cut]
  rfl

/-- The sum of the lengths before a payload leads to it. -/
theorem slice?_payload (fits : filling.Fits layout) (sound : layout.Sound) {place : Nat}
    {stored : Stored} (here : filling.payloads[place]? = some stored) :
    filling.record.value.slice?
      (layout.payloadStart + Lengths.total ((Stored.lengths filling.payloads).take place))
      stored.part.length = some stored.part := by
  have dynamic := fits.dynamicSlots_ne_nil (List.mem_of_getElem? here)
  have start : layout.payloadStart + Lengths.total ((Stored.lengths filling.payloads).take place) =
      (Stored.joined filling.block ++ (Lengths.pack (Stored.lengths filling.payloads) ++
        Stored.joined (filling.payloads.take place))).length := by
    rw [List.length_append, List.length_append, sound.length_block fits.block fits.blockExact,
      Lengths.length_pack, Stored.length_joined, Stored.lengths, Stored.lengths, List.map_take,
      Layout.payloadStart, Lengths.total, Nat.add_assoc]
  rw [start, Filling.record, Stored.tail_eq dynamic fits.payloads,
    Stored.joined_eq_of_getElem? here, ← List.append_assoc (Lengths.pack _), ← List.append_assoc]
  exact Bytes.slice?_append_eq_some_iff.mpr ⟨_, rfl, rfl⟩

theorem readDynamicSlot_eq (fits : filling.Fits layout) (sound : layout.Sound) (rules : CodecRules)
    {slot : DynamicSlot} (member : slot ∈ layout.dynamicSlots) :
    ∃ stored ∈ filling.all, stored.field = slot.field ∧
      rules.readDynamicSlot layout filling.record.value slot = stored.outcome rules := by
  obtain ⟨place, here⟩ := List.mem_iff_getElem?.mp member
  have fields := congrArg (fun fields => fields[place]?) fits.payloads
  rw [List.getElem?_map, List.getElem?_map, here, Option.map_some] at fields
  obtain ⟨stored, held, named⟩ := Option.map_eq_some_iff.mp fields
  have header : layout.readLengths filling.record.value = .ok (Stored.lengths filling.payloads) :=
    (CodecRules.readLengths_eq_ok_iff sound (sound.length_block fits.block fits.blockExact)).mpr
      ⟨(sound.few_lengths fits.payloads).1, fits.bounded, _,
        Stored.tail_eq (List.ne_nil_of_mem member) fits.payloads⟩
  have length : (Stored.lengths filling.payloads)[place]? = some stored.part.length := by
    rw [Stored.lengths, List.getElem?_map, held, Option.map_some]
  have inAll : stored ∈ filling.all := List.mem_append_right _ (List.mem_of_getElem? held)
  refine ⟨stored, inAll, named, ?_⟩
  rw [Stored.outcome_of_varying rules (fits.type sound inAll) (named ▸ sound.varying slot member),
    named, CodecRules.readDynamicSlot, header, Outcome.ok_bind, sound.ordinal_eq here, length,
    Option.getD_some]
  simp only [fits.slice?_payload sound held]

theorem readAt_eq (fits : filling.Fits layout) (sound : layout.Sound) (rules : CodecRules)
    {position : Position} (member : position ∈ layout.positions) :
    ∃ stored ∈ filling.all, stored.field = position.field ∧
      rules.readAt layout filling.record position = stored.outcome rules := by
  rcases Layout.mem_positions.mp member with
    ⟨slot, inKey, rfl⟩ | ⟨slot, inFixed, rfl⟩ | ⟨slot, inDynamic, rfl⟩
  · exact fits.readKeySlot_eq sound rules inKey
  · exact fits.readFixedSlot_eq sound rules inFixed
  · exact fits.readDynamicSlot_eq sound rules inDynamic

/-- A field of a filling is read from its own part, whatever the others hold. -/
theorem decodeField_eq (fits : filling.Fits layout) (sound : layout.Sound) (rules : CodecRules)
    {stored : Stored} (member : stored ∈ filling.all) :
    rules.decodeField layout filling.record stored.field.name =
      (stored.outcome rules).mapError (.malformedRecord layout.table) := by
  have listed : stored.field ∈ layout.positions.map Position.field := by
    rw [layout.positions_fields, ← fits.fields]
    exact List.mem_map_of_mem member
  obtain ⟨position, inPositions, same⟩ := List.mem_map.mp listed
  obtain ⟨other, held, named, read⟩ := fits.readAt_eq sound rules inPositions
  -- The position tells the field, and no two parts have a field of one name.
  have distinct := sound.distinct
  rw [← fits.fields, List.map_map] at distinct
  obtain rfl : other = stored :=
    List.inj_on_of_nodup_map distinct held member (congrArg Field.name (named.trans same))
  have position := sound.position?_eq_some_iff.mpr ⟨inPositions, congrArg Field.name same⟩
  rw [CodecRules.decodeField, position]
  exact congrArg (Except.mapError _) read

end Filling.Fits

/-! ## Whole records and their fields -/

namespace CodecRules

variable {codec : CodecRules} {layout : Layout} {record : Record} {row : Row}

theorem decodeField_eq_unknown {name : String}
    (strange : ∀ field ∈ layout.fields, field.name ≠ name) :
    codec.decodeField layout record name = .error (.unknownField layout.table name) := by
  rw [decodeField, Layout.position?_eq_none_iff.mpr strange]

/-- A row that is read holds what its fields read as, one by one. -/
theorem get?_eq_some_iff_of_decode (sound : layout.Sound)
    (decoded : codec.decode layout record = .ok row) (name : String) (cell : Cell) :
    row.get? name = some cell ↔ codec.decodeField layout record name = .ok cell := by
  obtain ⟨filling, fits, reads, rfl, rfl⟩ := (decode_eq_ok_iff sound).mp decoded
  have single : ∀ stored ∈ filling.all,
      codec.decodeField layout filling.record stored.field.name = .ok stored.cell := by
    intro stored member
    rw [fits.decodeField_eq sound codec member, Outcome.mapError_eq_ok, Stored.outcome_eq_ok_iff]
    exact reads stored member
  rw [fits.get?_row_eq_some_iff sound]
  constructor
  · rintro ⟨stored, member, rfl, rfl⟩
    exact single stored member
  · intro read
    by_cases known : ∃ field ∈ layout.fields, field.name = name
    · obtain ⟨field, listed, rfl⟩ := known
      rw [← fits.fields] at listed
      obtain ⟨stored, member, rfl⟩ := List.mem_map.mp listed
      exact ⟨stored, member, rfl, Except.ok.inj ((single stored member).symm.trans read)⟩
    · rw [decodeField_eq_unknown fun field listed same => known ⟨field, listed, same⟩] at read
      cases read

theorem lengths_of_decode (sound : layout.Sound) (decoded : codec.decode layout record = .ok row) :
    record.key.length = layout.keyLength ∧
      record.value.length = layout.valueLength record.value := by
  obtain ⟨filling, fits, -, rfl, -⟩ := (decode_eq_ok_iff sound).mp decoded
  exact ⟨sound.length_key fits.key fits.keyExact, fits.length_value sound⟩

/-- A field of variable width is read only behind a header that can be read. -/
theorem exists_lengths_of_decodeField (sound : layout.Sound) {slot : DynamicSlot}
    (member : slot ∈ layout.dynamicSlots) {cell : Cell}
    (read : codec.decodeField layout record slot.field.name = .ok cell) :
    ∃ lengths, layout.readLengths record.value = .ok lengths := by
  have position : layout.position? slot.field.name = some (.dynamic slot) :=
    sound.position?_eq_some_iff.mpr
      ⟨Layout.mem_positions.mpr (.inr (.inr ⟨slot, member, rfl⟩)), rfl⟩
  rw [decodeField, position] at read
  obtain ⟨lengths, found, -⟩ := Outcome.bind_eq_ok.mp (Outcome.mapError_eq_ok.mp read)
  exact ⟨lengths, found⟩

/-- A record of the right lengths is read when each of its fields is. -/
theorem exists_decode (sound : layout.Sound) (key : record.key.length = layout.keyLength)
    (value : record.value.length = layout.valueLength record.value)
    (each : ∀ field ∈ layout.fields, ∃ cell,
      codec.decodeField layout record field.name = .ok cell) :
    ∃ row, codec.decode layout record = .ok row := by
  have header : layout.dynamicSlots ≠ [] →
      ∃ lengths, layout.readLengths record.value = .ok lengths := by
    intro some
    obtain ⟨slot, member⟩ := List.exists_mem_of_ne_nil _ some
    have listed : slot.field ∈ layout.fields :=
      List.mem_append_right _ (List.mem_append_right _ (List.mem_map_of_mem member))
    obtain ⟨cell, read⟩ := each slot.field listed
    exact exists_lengths_of_decodeField sound member read
  have inhabited : Nonempty Cell := ⟨.bool false⟩
  choose! cellOf reads using each
  obtain ⟨filling, fits, rfl, cells⟩ := sound.exists_filling cellOf key value header
  refine ⟨filling.row, (decode_eq_ok_iff sound).mpr ⟨filling, fits, fun stored member => ?_, rfl,
    rfl⟩⟩
  have read := reads stored.field (fits.fields ▸ List.mem_map_of_mem member)
  rw [fits.decodeField_eq sound codec member, Outcome.mapError_eq_ok, ← cells stored member,
    Stored.outcome_eq_ok_iff] at read
  exact read

/-! ## Planned layouts -/

variable {registry : Registry} {rules limits : SchemaRules} {declaration : TableDeclaration}
  {schema : Schema}

/--
Whole records and single fields are read alike.  A row that is read holds for each field what the
field reads as by itself.  In turn a record is read when its key and its value have the lengths
that the layout and the header call for and each field can be read; its row then holds just what the
names of fields read as.  No record has a field of another name.
-/
theorem decode_iff_decodeField (reachable : registry.Reachable)
    (validated : rules.validate registry declaration = .ok schema)
    (planned : Layout.plan limits schema = .ok layout) (codec : CodecRules) (record : Record) :
    (∀ row, codec.decode layout record = .ok row →
        record.key.length = layout.keyLength ∧
          record.value.length = layout.valueLength record.value ∧
          ∀ field ∈ schema.fields, ∃ cell, row.get? field.name = some cell ∧
            codec.decodeField layout record field.name = .ok cell) ∧
      (record.key.length = layout.keyLength →
        record.value.length = layout.valueLength record.value →
        (∀ field ∈ schema.fields, ∃ cell,
          codec.decodeField layout record field.name = .ok cell) →
        ∃ row, codec.decode layout record = .ok row ∧ ∀ name cell,
          row.get? name = some cell ↔ codec.decodeField layout record name = .ok cell) ∧
      ∀ name, (∀ field ∈ schema.fields, field.name ≠ name) →
        codec.decodeField layout record name = .error (.unknownField schema.name name) := by
  have stores := Layout.stores_of_plan reachable validated planned
  have sound := stores.sound
  refine ⟨fun row decoded => ?_, fun key value each => ?_, fun name strange => ?_⟩
  · obtain ⟨key, value⟩ := lengths_of_decode sound decoded
    refine ⟨key, value, fun field member => ?_⟩
    obtain ⟨filling, fits, -, -, rfl⟩ := (decode_eq_ok_iff sound).mp decoded
    have known := (fits.contains_row_iff sound).mpr
      ⟨field, stores.fields.mem_iff.mpr member, rfl⟩
    obtain ⟨cell, found⟩ := Option.isSome_iff_exists.mp known
    exact ⟨cell, found, (get?_eq_some_iff_of_decode sound decoded _ _).mp found⟩
  · obtain ⟨row, decoded⟩ := exists_decode sound key value fun field member =>
      each field (stores.fields.mem_iff.mp member)
    exact ⟨row, decoded, get?_eq_some_iff_of_decode sound decoded⟩
  · rw [← stores.table]
    exact decodeField_eq_unknown fun field member =>
      strange field (stores.fields.mem_iff.mp member)

/-- A player's name by itself, and a field that players lack. -/
theorem decode_iff_decodeField_player :
    decodeField {} Player.layout Player.record "name" = .ok (.string "Ann") ∧
      decodeField {} Player.layout Player.record "rank" =
        .error (.unknownField "Player" "rank") ∧
      ∃ row, decode {} Player.layout Player.record = .ok row ∧
        row.get? "name" = some (.string "Ann") := by
  obtain ⟨whole, pieces, strange⟩ := decode_iff_decodeField .standard Player.validate_declaration
    Player.plan_schema {} Player.record
  obtain ⟨key, value, each⟩ := whole Player.wholeRow Player.decode_record
  obtain ⟨cell, found, read⟩ := each Player.nameField (by decide)
  obtain rfl : Cell.string "Ann" = cell := by
    have known : Player.wholeRow.get? "name" = some (.string "Ann") := by decide +kernel
    exact Option.some.inj (known.symm.trans found)
  refine ⟨read, strange "rank" (by decide), ?_⟩
  obtain ⟨row, decoded, same⟩ := pieces key value fun field member =>
    (each field member).imp fun cell reads => reads.2
  exact ⟨row, decoded, (same _ _).mpr read⟩

end CodecRules

end PackedTables
