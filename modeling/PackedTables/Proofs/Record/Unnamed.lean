import PackedTables.Proofs.Layout.Unnamed
import PackedTables.Proofs.Outcome
import PackedTables.Record.Read

/-!
# Records without the names of types

Writing looks at the name of a type only to tell it in a fault, and reading not at all.  So a layout
without the names of its types writes and reads the same records as the layout.
-/

namespace PackedTables

/-! ## Writing -/

theorem CellFault.inField_unnamed (table : String) (field : Field) (expected label : String)
    (fault : CellFault) :
    (fault.inField table field.unnamed expected).unnamed =
      (fault.inField table field label).unnamed := by
  cases fault <;> rfl

namespace Field

theorem write_unnamed (table : String) (field : Field) (cell : Cell) :
    (field.unnamed.write table cell).mapError Fault.unnamed =
      (field.write table cell).mapError Fault.unnamed := by
  rw [write, write, Outcome.mapError_mapError, Outcome.mapError_mapError]
  exact congrArg (Except.mapError · (field.type.kind.write cell))
    (funext fun fault => fault.inField_unnamed table field _ _)

theorem writeItems_unnamed (table : String) (field : Field) (element : Kind) (items : List Cell) :
    (field.unnamed.writeItems table element items).mapError Fault.unnamed =
      (field.writeItems table element items).mapError Fault.unnamed := by
  have each (item : Cell) : (writeItem table field.unnamed element item).mapError Fault.unnamed =
      (writeItem table field element item).mapError Fault.unnamed := by
    rw [writeItem, writeItem, Outcome.mapError_mapError, Outcome.mapError_mapError]
    exact congrArg (Except.mapError · (element.write item))
      (funext fun fault => fault.inField_unnamed table field _ _)
  rw [writeItems, writeItems, Outcome.mapError_map, Outcome.mapError_map, Outcome.mapError_mapM,
    Outcome.mapError_mapM]
  simp only [each]

theorem writePayload_unnamed (table : String) (field : Field) (cell : Cell) :
    (field.unnamed.writePayload table cell).mapError Fault.unnamed =
      (field.writePayload table cell).mapError Fault.unnamed := by
  have items := writeItems_unnamed table field
  have kinds : field.unnamed.type.kind = field.type.kind := rfl
  unfold writePayload
  rw [kinds]
  generalize field.type.kind = kind
  cases kind with
  | array element length =>
      cases cell with
      | array cells =>
          cases length with
          | none => exact items element cells
          | some count =>
              simp only
              split
              · exact items element cells
              · rfl
      | _ => cases length <;> rfl
  | _ => cases cell <;> rfl

end Field

namespace Layout

variable (layout : Layout) (row : Row)

theorem writeKeySlot_unnamed (slot : KeySlot) :
    (layout.unnamed.writeKeySlot row slot.unnamed).mapError Fault.unnamed =
      (layout.writeKeySlot row slot).mapError Fault.unnamed := by
  have names : slot.unnamed.field.name = slot.field.name := rfl
  unfold writeKeySlot
  rw [names]
  cases row.get? slot.field.name with
  | some cell => exact slot.field.write_unnamed layout.table cell
  | none => rfl

theorem writeFixedSlot_unnamed (slot : FixedSlot) :
    (layout.unnamed.writeFixedSlot row slot.unnamed).mapError Fault.unnamed =
      (layout.writeFixedSlot row slot).mapError Fault.unnamed := by
  have names : slot.unnamed.field.name = slot.field.name := rfl
  unfold writeFixedSlot
  rw [names]
  cases row.get? slot.field.name with
  | some cell => exact slot.field.write_unnamed layout.table cell
  | none => rfl

theorem writeDynamicSlot_unnamed (slot : DynamicSlot) :
    (layout.unnamed.writeDynamicSlot row slot.unnamed).mapError Fault.unnamed =
      (layout.writeDynamicSlot row slot).mapError Fault.unnamed := by
  have names : slot.unnamed.field.name = slot.field.name := rfl
  unfold writeDynamicSlot
  rw [names]
  cases row.get? slot.field.name with
  | some cell => exact slot.field.writePayload_unnamed layout.table cell
  | none => rfl

theorem strangeName?_unnamed : layout.unnamed.strangeName? row = layout.strangeName? row := by
  unfold strangeName?
  simp only [position?_unnamed, Option.isNone_map]

theorem writeKey_unnamed :
    (layout.unnamed.writeKey row).mapError Fault.unnamed =
      (layout.writeKey row).mapError Fault.unnamed := by
  rw [writeKey, writeKey, Outcome.mapError_map, Outcome.mapError_map]
  exact congrArg (List.flatten <$> ·)
    (Outcome.mapError_mapM_map (layout.writeKeySlot_unnamed row) layout.keySlots)

theorem writeBlock_unnamed :
    (layout.unnamed.writeBlock row).mapError Fault.unnamed =
      (layout.writeBlock row).mapError Fault.unnamed := by
  rw [writeBlock, writeBlock, Outcome.mapError_map, Outcome.mapError_map]
  exact congrArg (List.flatten <$> ·)
    (Outcome.mapError_mapM_map (layout.writeFixedSlot_unnamed row) layout.fixedSlots)

theorem hasDynamic_unnamed : layout.unnamed.hasDynamic = layout.hasDynamic := by
  rw [hasDynamic, hasDynamic, unnamed, List.isEmpty_map]

end Layout

namespace CodecRules

variable (rules : CodecRules) (layout : Layout)

theorem writePayload_unnamed (row : Row) (slot : DynamicSlot) :
    (rules.writePayload layout.unnamed row slot.unnamed).mapError Fault.unnamed =
      (rules.writePayload layout row slot).mapError Fault.unnamed := by
  rw [writePayload, writePayload, Outcome.mapError_bind, Outcome.mapError_bind,
    Layout.writeDynamicSlot_unnamed]
  rfl

theorem writeTail_unnamed (row : Row) :
    (rules.writeTail layout.unnamed row).mapError Fault.unnamed =
      (rules.writeTail layout row).mapError Fault.unnamed := by
  have payloads : (rules.writePayloads layout.unnamed row).mapError Fault.unnamed =
      (rules.writePayloads layout row).mapError Fault.unnamed :=
    Outcome.mapError_mapM_map (rules.writePayload_unnamed layout row) layout.dynamicSlots
  rw [writeTail, writeTail, layout.hasDynamic_unnamed]
  split
  · rw [Outcome.mapError_bind, Outcome.mapError_bind, payloads]
    rfl
  · rfl

/-- The same row is written to the same record, or refused for the same fault. -/
theorem encode_unnamed (row : Row) :
    (rules.encode layout.unnamed row).mapError Fault.unnamed =
      (rules.encode layout row).mapError Fault.unnamed := by
  unfold encode
  rw [layout.strangeName?_unnamed]
  cases layout.strangeName? row with
  | some name => rfl
  | none =>
      simp only [Outcome.mapError_bind, layout.writeKey_unnamed, layout.writeBlock_unnamed,
        rules.writeTail_unnamed]

/-! ## Reading -/

theorem readKey_unnamed (key : Bytes) : rules.readKey layout.unnamed key = rules.readKey layout key :=
  List.mapM_map

theorem readBlock_unnamed (value : Bytes) :
    rules.readBlock layout.unnamed value = rules.readBlock layout value := by
  have block : (layout.unnamed.fixedSlots.mapM fun slot =>
        slot.field.readPart rules value slot.offset slot.width) =
      layout.fixedSlots.mapM fun slot => slot.field.readPart rules value slot.offset slot.width :=
    List.mapM_map
  unfold readBlock
  rw [block]
  rfl

theorem readPayloads_unnamed (value : Bytes) (cursor : Nat) (slots : List DynamicSlot)
    (lengths : List Nat) :
    rules.readPayloads value cursor (slots.map DynamicSlot.unnamed) lengths =
      rules.readPayloads value cursor slots lengths := by
  induction slots generalizing cursor lengths with
  | nil => rfl
  | cons slot slots ih =>
      cases lengths with
      | nil => rfl
      | cons length lengths =>
          rw [List.map_cons, readPayloads, readPayloads, ih]
          rfl

theorem readLengths_unnamed (value : Bytes) :
    layout.unnamed.readLengths value = layout.readLengths value := by
  have counted : layout.unnamed.dynamicSlots.length = layout.dynamicSlots.length :=
    List.length_map _
  unfold Layout.readLengths
  rw [counted]
  rfl

theorem readTail_unnamed (value : Bytes) :
    rules.readTail layout.unnamed value = rules.readTail layout value := by
  have payloads : rules.readPayloads value layout.unnamed.payloadStart layout.unnamed.dynamicSlots =
      rules.readPayloads value layout.payloadStart layout.dynamicSlots :=
    funext (rules.readPayloads_unnamed value layout.payloadStart layout.dynamicSlots)
  unfold readTail
  rw [layout.hasDynamic_unnamed, readLengths_unnamed, payloads]
  rfl

theorem decode_unnamed (record : Record) :
    rules.decode layout.unnamed record = rules.decode layout record := by
  unfold decode readCells
  rw [readKey_unnamed, readBlock_unnamed, readTail_unnamed]
  rfl

theorem readAt_unnamed (record : Record) (position : Position) :
    rules.readAt layout.unnamed record position.unnamed = rules.readAt layout record position := by
  cases position with
  | key slot => rfl
  | fixed slot => rfl
  | dynamic slot =>
      change rules.readDynamicSlot layout.unnamed record.value slot.unnamed =
        rules.readDynamicSlot layout record.value slot
      unfold readDynamicSlot
      rw [readLengths_unnamed]
      rfl

theorem decodeField_unnamed (record : Record) (name : String) :
    rules.decodeField layout.unnamed record name = rules.decodeField layout record name := by
  unfold decodeField
  rw [layout.position?_unnamed]
  cases layout.position? name with
  | some position =>
      exact congrArg (Except.mapError (Fault.malformedRecord layout.table))
        (rules.readAt_unnamed layout record position)
  | none => rfl

end CodecRules

end PackedTables
