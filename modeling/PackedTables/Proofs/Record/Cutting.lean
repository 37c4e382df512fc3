import PackedTables.Proofs.Layout.Extent
import PackedTables.Proofs.Record.Canonical

/-!
# Cutting records

A record whose key and value are as long as its layout and its header call for is that of a filling:
its bytes are cut where the slots begin, whatever stands in them.
-/

namespace PackedTables

/-- How long a value is, by what its header tells of the payloads. -/
def Layout.valueLength (layout : Layout) (value : Bytes) : Nat :=
  if layout.hasDynamic then
    layout.payloadStart + Lengths.total (layout.dynamicSlots.map (layout.payloadLength value))
  else layout.staticLength

theorem Layout.valueLength_of_static {layout : Layout} (none : layout.dynamicSlots = [])
    (value : Bytes) : layout.valueLength value = layout.staticLength := by
  have undynamic : layout.hasDynamic = false := by simp [hasDynamic, none]
  rw [valueLength, undynamic, if_neg (by decide)]

theorem Layout.valueLength_of_dynamic {layout : Layout} (some : layout.dynamicSlots ≠ [])
    (value : Bytes) : layout.valueLength value = layout.staticLength + Lengths.wordLength +
      Bytes.joinedLength (layout.dynamicSlots.map (layout.payloadLength value)) := by
  have dynamic : layout.hasDynamic = true := by simp [hasDynamic, some]
  rw [valueLength, dynamic, if_pos rfl]
  rfl

theorem Filling.Fits.length_value {layout : Layout} {filling : Filling} (fits : filling.Fits layout)
    (sound : layout.Sound) :
    filling.record.value.length = layout.valueLength filling.record.value := by
  by_cases none : layout.dynamicSlots = []
  · rw [Layout.valueLength_of_static none, Filling.record, List.length_append,
      sound.length_block fits.block fits.blockExact, fits.payloads_eq_nil none]
    rfl
  · rw [Layout.valueLength_of_dynamic none, fits.payloadLength_eq sound, Filling.record,
      List.length_append, sound.length_block fits.block fits.blockExact,
      Stored.tail_eq none fits.payloads, List.length_append, Lengths.length_pack,
      Stored.length_joined, Nat.add_assoc]

/-- Bytes are cut into parts of given lengths, as long as these add up to them. -/
theorem Stored.exists_cut (cellOf : Field → Cell) (pieces : List (Field × Nat)) {bytes : Bytes}
    (whole : bytes.length = Bytes.joinedLength (pieces.map (·.2))) :
    ∃ held, held.map (fun stored => (stored.field, stored.part.length)) = pieces ∧
      joined held = bytes ∧ ∀ stored ∈ held, stored.cell = cellOf stored.field := by
  induction pieces generalizing bytes with
  | nil => exact ⟨[], rfl, (List.length_eq_zero_iff.mp whole).symm, by simp⟩
  | cons piece pieces ih =>
      rw [List.map_cons, Bytes.joinedLength] at whole
      have front : (bytes.take piece.2).length = piece.2 := by
        rw [List.length_take]
        omega
      have behind : (bytes.drop piece.2).length = Bytes.joinedLength (pieces.map (·.2)) := by
        rw [List.length_drop]
        omega
      obtain ⟨held, same, rest, cells⟩ := ih behind
      refine ⟨⟨piece.1, bytes.take piece.2, cellOf piece.1⟩ :: held, ?_, ?_,
        List.forall_mem_cons.mpr ⟨rfl, cells⟩⟩
      · rw [List.map_cons, same, front]
      · rw [joined_cons, rest, List.take_append_drop]

/-- Bytes as long as a run of slots fill it. -/
theorem Span.Run.exists_cut {stop : Nat} {spans : List Span} (run : Span.Run 0 spans stop)
    (cellOf : Field → Cell) {bytes : Bytes} (whole : bytes.length = stop) :
    ∃ held, held.map Stored.field = spans.map (·.field) ∧ (∀ stored ∈ held, stored.Exact) ∧
      Stored.joined held = bytes ∧ ∀ stored ∈ held, stored.cell = cellOf stored.field := by
  have widths := run.joinedLength_widths
  rw [Nat.zero_add] at widths
  obtain ⟨held, same, joined, cells⟩ :=
    Stored.exists_cut cellOf (spans.map fun span => (span.field, span.width)) (by
      rw [whole, ← widths, List.map_map]
      rfl)
  refine ⟨held, ?_, fun stored member => ?_, joined, cells⟩
  · have fields := congrArg (List.map (·.1)) same
    rwa [List.map_map, List.map_map] at fields
  · have listed : (stored.field, stored.part.length) ∈ _ := same ▸ List.mem_map_of_mem member
    obtain ⟨span, inSpans, equal⟩ := List.mem_map.mp listed
    obtain ⟨named, sized⟩ := Prod.mk.inj equal
    rw [Stored.Exact, ← named, ← sized]
    exact run.sized span inSpans

namespace Layout.Sound

variable {layout : Layout}

/-- What follows the block of a value of the right length is a header and its payloads. -/
theorem exists_tail (sound : layout.Sound) (cellOf : Field → Cell) {block rest : Bytes}
    (placed : block.length = layout.staticLength)
    (whole : (block ++ rest).length = layout.valueLength (block ++ rest))
    (header : layout.dynamicSlots ≠ [] →
      ∃ lengths, layout.readLengths (block ++ rest) = .ok lengths) :
    ∃ held, held.map Stored.field = layout.dynamicSlots.map (·.field) ∧
      (∀ length ∈ Stored.lengths held, length ≤ Limits.maxDynamicLength) ∧
      Stored.tail held = rest ∧ ∀ stored ∈ held, stored.cell = cellOf stored.field := by
  rw [List.length_append, placed] at whole
  by_cases none : layout.dynamicSlots = []
  · rw [Layout.valueLength_of_static none] at whole
    obtain rfl := List.length_eq_zero_iff.mp (show rest.length = 0 by omega)
    exact ⟨[], by rw [none]; rfl, by simp [Stored.lengths], rfl, by simp⟩
  · obtain ⟨lengths, read⟩ := header none
    obtain ⟨counted, bounded, payloads, rfl⟩ :=
      (CodecRules.readLengths_eq_ok_iff sound placed).mp read
    rw [Layout.valueLength_of_dynamic none, sound.payloadLength_eq placed counted bounded,
      List.length_append, Lengths.length_pack] at whole
    have counted : (layout.dynamicSlots.map (·.field)).length = lengths.length := by
      rw [List.length_map, counted]
    have named := List.map_fst_zip (Nat.le_of_eq counted)
    have sized := List.map_snd_zip (Nat.le_of_eq counted.symm)
    have split : payloads.length = Bytes.joinedLength
        (((layout.dynamicSlots.map (·.field)).zip lengths).map (·.2)) := by
      rw [sized]
      omega
    obtain ⟨held, pieces, joined, cells⟩ := Stored.exists_cut cellOf _ split
    have fields : held.map Stored.field = layout.dynamicSlots.map (·.field) := by
      rw [← named, ← pieces, List.map_map]
      rfl
    have sizes : Stored.lengths held = lengths := by
      rw [← sized, ← pieces, List.map_map]
      rfl
    refine ⟨held, fields, sizes ▸ bounded, ?_, cells⟩
    rw [Stored.tail_eq none fields, joined, sizes]

/-- A record of the right lengths is that of a filling, whatever cells stand in it. -/
theorem exists_filling (sound : layout.Sound) (cellOf : Field → Cell) {record : Record}
    (key : record.key.length = layout.keyLength)
    (value : record.value.length = layout.valueLength record.value)
    (header : layout.dynamicSlots ≠ [] → ∃ lengths, layout.readLengths record.value = .ok lengths) :
    ∃ filling : Filling, filling.Fits layout ∧ filling.record = record ∧
      ∀ stored ∈ filling.all, stored.cell = cellOf stored.field := by
  have long : layout.staticLength ≤ record.value.length := by
    rw [value, Layout.valueLength, Layout.payloadStart]
    split <;> omega
  have placed : (record.value.take layout.staticLength).length = layout.staticLength := by
    rw [List.length_take]
    omega
  have split := List.take_append_drop layout.staticLength record.value
  obtain ⟨keyHeld, keyFields, keyExact, keySame, keyCells⟩ := sound.keyRun.exists_cut cellOf key
  obtain ⟨block, blockFields, blockExact, blockSame, blockCells⟩ :=
    sound.fixedRun.exists_cut cellOf placed
  obtain ⟨payloads, fields, bounded, tail, cells⟩ := sound.exists_tail cellOf placed
    (by rw [split, value]) (by rw [split]; exact header)
  refine ⟨⟨keyHeld, block, payloads⟩, ⟨?_, ?_, fields, keyExact, blockExact, bounded⟩, ?_, ?_⟩
  · rw [keyFields, layout.keySpans_fields]
  · rw [blockFields, layout.fixedSpans_fields]
  · rw [Filling.record, keySame, blockSame, tail, split]
  · exact Filling.forall_all_iff.mpr ⟨keyCells, blockCells, cells⟩

end Layout.Sound

end PackedTables
