import Mathlib.Data.List.Forall2
import PackedTables.Proofs.Record.Key
import PackedTables.Proofs.Record.Places

/-!
# Local writes

Rows that agree in all fields but one are written to records that agree outside the bytes of that
field.  A payload may push those behind it along, but the header, each record its own, still leads
to the same bytes.
-/

namespace PackedTables

/-! ## Bytes outside a stretch -/

namespace Bytes

/-- Strings of one length that have the same bytes outside a stretch. -/
def AgreeOutside (start width : Nat) (first second : Bytes) : Prop :=
  first.length = second.length ∧
    ∀ place, place < start ∨ start + width ≤ place → first[place]? = second[place]?

theorem agreeOutside_middle {front part other : Bytes} (back : Bytes)
    (exact : part.length = other.length) :
    AgreeOutside front.length part.length (front ++ (part ++ back)) (front ++ (other ++ back)) := by
  refine ⟨by simp [exact], ?_⟩
  rintro place (before | behind)
  · rw [List.getElem?_append_left before, List.getElem?_append_left before]
  · rw [List.getElem?_append_right (by omega), List.getElem?_append_right (by omega),
      List.getElem?_append_right (by omega), List.getElem?_append_right (by omega), exact]

end Bytes

namespace Lengths

variable {lengths others : List Nat}

/-- Each byte above the total belongs to the slot of one length. -/
theorem getElem?_pack (lengths : List Nat) {ordinal offset : Nat}
    (inside : ordinal < Limits.maxDynamicFields) (within : offset < slotWidth) :
    (pack lengths)[slotStart ordinal + offset]? = (Bytes.bigEndian slotWidth
      (lengthAt lengths ordinal % Bytes.capacity slotWidth))[offset]? := by
  rw [← slotLength_pack_mod lengths inside, bigEndian_slotLength (length_pack lengths) inside,
    List.getElem?_take_of_lt within, List.getElem?_drop]

/-- Headers that pack other lengths in one place agree above the total, but for that slot. -/
theorem pack_agreeOutside {ordinal : Nat}
    (same : ∀ other, other ≠ ordinal → lengthAt lengths other = lengthAt others other) :
    Bytes.AgreeOutside (slotStart ordinal) slotWidth
      ((pack lengths).take (wordLength - totalWidth))
      ((pack others).take (wordLength - totalWidth)) := by
  refine ⟨by simp [length_pack], fun place outside => ?_⟩
  by_cases above : place < wordLength - totalWidth
  · rw [List.getElem?_take_of_lt above, List.getElem?_take_of_lt above]
    unfold slotStart slotStop wordLength totalWidth slotWidth at outside
    unfold wordLength totalWidth at above
    -- The place lies in the slot that its fifth part counts down to.
    have inside : 4 - place / 5 < Limits.maxDynamicFields := by
      unfold Limits.maxDynamicFields
      omega
    have within : place % 5 < slotWidth := Nat.mod_lt _ (by decide)
    have placed : slotStart (4 - place / 5) + place % 5 = place := by
      unfold slotStart slotStop wordLength totalWidth slotWidth
      omega
    have slot := getElem?_pack lengths inside within
    have slot' := getElem?_pack others inside within
    rw [placed] at slot slot'
    rw [slot, slot', same _ (by omega)]
  · have behind (word : Bytes) : (word.take (wordLength - totalWidth))[place]? = none :=
      List.getElem?_eq_none (Nat.le_trans (List.length_take_le _ _) (Nat.not_lt.mp above))
    rw [behind, behind]

end Lengths

namespace Stored

/-! ## Parts of two rows -/

variable {row row' : Row} {held held' : List Stored} {name : String}

/-- What a row puts in a slot depends on its cell there only. -/
theorem Written.part_eq {stored stored' : Stored} (sound : stored.field.type.Sound)
    (written : stored.Written row) (written' : stored'.Written row')
    (named : stored.field = stored'.field)
    (agree : row.get? stored.field.name = row'.get? stored.field.name) :
    stored.part = stored'.part := by
  obtain ⟨field', part', cell'⟩ := stored'
  obtain rfl : stored.field = field' := named
  cases written with
  | given found spelled =>
      rw [found] at agree
      cases written' with
      | given found' spelled' =>
          obtain rfl := Option.some.inj (agree.trans found')
          exact sound.kind.bytes_eq_of_spells spelled spelled'
      | omitted missing => cases agree.trans missing
  | omitted missing =>
      rw [missing] at agree
      cases written' with
      | given found spelled => cases agree.trans found
      | omitted missing' => rfl

/-- The same fields, and the same parts but for the field of one name. -/
def AgreeBut (name : String) : List Stored → List Stored → Prop :=
  List.Forall₂ fun stored stored' =>
    stored.field = stored'.field ∧ (stored.field.name ≠ name → stored.part = stored'.part)

theorem agreeBut_of_written (fields : held.map (·.field) = held'.map (·.field))
    (types : ∀ stored ∈ held, stored.field.type.Sound)
    (written : ∀ stored ∈ held, stored.Written row)
    (written' : ∀ stored ∈ held', stored.Written row')
    (agree : ∀ other, other ≠ name → row.get? other = row'.get? other) :
    AgreeBut name held held' := by
  induction held generalizing held' with
  | nil =>
      obtain rfl := List.map_eq_nil_iff.mp fields.symm
      exact .nil
  | cons stored held ih =>
      obtain ⟨stored', others, rfl, named, following⟩ := List.map_eq_cons_iff.mp fields.symm
      obtain ⟨type, types⟩ := List.forall_mem_cons.mp types
      obtain ⟨here, there⟩ := List.forall_mem_cons.mp written
      obtain ⟨here', there'⟩ := List.forall_mem_cons.mp written'
      refine .cons ⟨named.symm, fun unnamed => ?_⟩ (ih following.symm types there there')
      exact here.part_eq type here' named.symm (agree _ unnamed)

theorem AgreeBut.parts_eq (alike : AgreeBut name held held')
    (strange : ∀ stored ∈ held, stored.field.name ≠ name) :
    held.map (·.part) = held'.map (·.part) := by
  induction alike with
  | nil => rfl
  | cons here there ih =>
      obtain ⟨unnamed, strange⟩ := List.forall_mem_cons.mp strange
      rw [List.map_cons, here.2 unnamed, ih strange, List.map_cons]

/-- One part is put in the place of another, and the others stay. -/
theorem AgreeBut.exists_set (alike : AgreeBut name held held')
    (distinct : (held.map (·.field.name)).Nodup) {place : Nat} {stored : Stored}
    (here : held[place]? = some stored) (named : stored.field.name = name) :
    ∃ stored' ∈ held', stored'.field = stored.field ∧
      held'.map (·.part) = (held.map (·.part)).set place stored'.part := by
  induction alike generalizing place with
  | nil => cases here
  | @cons first first' rest rest' same there ih =>
      obtain ⟨apart, distinct⟩ := List.nodup_cons.mp distinct
      cases place with
      | zero =>
          obtain rfl := Option.some.inj here
          refine ⟨first', List.mem_cons_self, same.1.symm, ?_⟩
          have strange : ∀ other ∈ rest, other.field.name ≠ name := fun other member unnamed =>
            apart (List.mem_map.mpr ⟨other, member, unnamed.trans named.symm⟩)
          rw [List.map_cons, List.map_cons, List.set_cons_zero, AgreeBut.parts_eq there strange]
      | succ place =>
          have unnamed : first.field.name ≠ name := fun equal =>
            apart (List.mem_map.mpr ⟨stored, List.mem_of_getElem? here, named.trans equal.symm⟩)
          obtain ⟨stored', member, field, parts⟩ := ih distinct here
          refine ⟨stored', List.mem_cons_of_mem _ member, field, ?_⟩
          rw [List.map_cons, List.map_cons, List.set_cons_succ, parts, same.2 unnamed]

/-- Bytes of exact parts agree outside the stretch of the field. -/
theorem AgreeBut.agreeOutside (alike : AgreeBut name held held')
    (distinct : (held.map (·.field.name)).Nodup) (exact : ∀ stored ∈ held, stored.Exact)
    (exact' : ∀ stored ∈ held', stored.Exact) {span : Span} (member : span ∈ spans 0 held)
    (named : span.field.name = name) (back : Bytes) :
    Bytes.AgreeOutside span.offset span.width (joined held ++ back) (joined held' ++ back) := by
  obtain ⟨place, inside, rfl⟩ := List.mem_iff_getElem.mp member
  have counted : place < held.length := by rwa [length_spans] at inside
  have here := List.getElem?_eq_getElem counted
  have found := getElem?_spans 0 here
  rw [List.getElem?_eq_getElem inside, Nat.zero_add] at found
  rw [Option.some.inj found] at named ⊢
  obtain ⟨stored', inHeld', field, parts⟩ := alike.exists_set distinct here named
  have measured : held[place].part.length = stored'.part.length := by
    have sized := exact _ (List.getElem_mem counted)
    have sized' := exact' stored' inHeld'
    rw [Exact, field] at sized'
    exact Option.some.inj (sized.symm.trans sized')
  have split : joined held' = joined (held.take place) ++
      (stored'.part ++ joined (held.drop (place + 1))) := by
    rw [joined, parts, List.set_eq_take_append_cons_drop, if_pos (by rwa [List.length_map]),
      List.flatten_append, List.flatten_cons, ← List.map_take, ← List.map_drop]
    rfl
  rw [split, joined_eq_of_getElem? here, List.append_assoc, List.append_assoc, List.append_assoc,
    List.append_assoc]
  exact Bytes.agreeOutside_middle _ measured

end Stored

/-! ## Records of two rows -/

namespace Filling

variable {layout : Layout} {first second : Filling} {name : String}

/-- Fillings that agree but for the field of one name. -/
structure AgreeBut (name : String) (first second : Filling) : Prop where
  key : Stored.AgreeBut name first.key second.key
  block : Stored.AgreeBut name first.block second.block
  payloads : Stored.AgreeBut name first.payloads second.payloads

theorem Writes.agreeBut {rules : CodecRules} {row row' : Row} (sound : layout.Sound)
    (fits : first.Fits layout) (fits' : second.Fits layout) (writes : first.Writes rules row)
    (writes' : second.Writes rules row')
    (agree : ∀ other, other ≠ name → row.get? other = row'.get? other) :
    AgreeBut name first second := by
  have types : ∀ stored ∈ first.all, stored.field.type.Sound := fun stored => fits.type sound
  obtain ⟨keyTypes, blockTypes, payloadTypes⟩ := forall_all_iff.mp types
  obtain ⟨key, block, payloads⟩ := forall_all_iff.mp writes.written
  obtain ⟨key', block', payloads'⟩ := forall_all_iff.mp writes'.written
  exact ⟨Stored.agreeBut_of_written (fits.key.trans fits'.key.symm) keyTypes key key' agree,
    Stored.agreeBut_of_written (fits.block.trans fits'.block.symm) blockTypes block block' agree,
    Stored.agreeBut_of_written (fits.payloads.trans fits'.payloads.symm) payloadTypes payloads
      payloads' agree⟩

/-- No two parts of a filling belong to fields of one name. -/
structure Apart (filling : Filling) : Prop where
  key : (filling.key.map (·.field.name)).Nodup
  block : (filling.block.map (·.field.name)).Nodup
  payloads : (filling.payloads.map (·.field.name)).Nodup
  keyBlock : ∀ stored ∈ filling.key, ∀ other ∈ filling.block,
    stored.field.name ≠ other.field.name
  keyPayloads : ∀ stored ∈ filling.key, ∀ other ∈ filling.payloads,
    stored.field.name ≠ other.field.name
  blockPayloads : ∀ stored ∈ filling.block, ∀ other ∈ filling.payloads,
    stored.field.name ≠ other.field.name

theorem Fits.apart (fits : first.Fits layout) (sound : layout.Sound) : first.Apart := by
  have names : (first.all.map (·.field.name)).Nodup := by
    have distinct := fits.distinct sound
    rwa [List.map_map] at distinct
  rw [all, List.map_append, List.map_append, List.nodup_append, List.nodup_append] at names
  obtain ⟨⟨key, block, keyBlock⟩, payloads, others⟩ := names
  have mem_map {held : List Stored} {stored : Stored} (member : stored ∈ held) :
      stored.field.name ∈ held.map (·.field.name) := List.mem_map_of_mem member
  exact ⟨key, block, payloads,
    fun stored member other inBlock => keyBlock _ (mem_map member) _ (mem_map inBlock),
    fun stored member other inPayloads =>
      others _ (List.mem_append_left _ (mem_map member)) _ (mem_map inPayloads),
    fun stored member other inPayloads =>
      others _ (List.mem_append_right _ (mem_map member)) _ (mem_map inPayloads)⟩

/-- Something is held for each field. -/
theorem exists_held {held : List Stored} {slotType : Type} {slots : List slotType}
    {field : slotType → Field} (fields : held.map (·.field) = slots.map field) {slot : slotType}
    (member : slot ∈ slots) : ∃ stored ∈ held, stored.field = field slot := by
  have listed : field slot ∈ held.map (·.field) := fields ▸ List.mem_map_of_mem member
  exact List.mem_map.mp listed

namespace AgreeBut

variable (alike : AgreeBut name first second) (sound : layout.Sound) (fits : first.Fits layout)
  (fits' : second.Fits layout)

include alike

theorem record_key_eq (strange : ∀ stored ∈ first.key, stored.field.name ≠ name) :
    first.record.key = second.record.key :=
  Stored.joined_eq_of_parts (alike.key.parts_eq strange)

theorem block_eq (strange : ∀ stored ∈ first.block, stored.field.name ≠ name) :
    Stored.joined first.block = Stored.joined second.block :=
  Stored.joined_eq_of_parts (alike.block.parts_eq strange)

theorem tail_eq (strange : ∀ stored ∈ first.payloads, stored.field.name ≠ name) :
    Stored.tail first.payloads = Stored.tail second.payloads :=
  Stored.tail_eq_of_parts (alike.payloads.parts_eq strange)

include sound fits fits'

/-- Another cell in a key field leaves the value as it is. -/
theorem of_key {slot : KeySlot} (member : slot ∈ layout.keySlots)
    (named : slot.field.name = name) :
    first.record.value = second.record.value ∧
      Bytes.AgreeOutside slot.offset slot.width first.record.key second.record.key := by
  have apart := fits.apart sound
  obtain ⟨stored, held, field⟩ := exists_held fits.key member
  have same : stored.field.name = name := field ▸ named
  constructor
  · exact congrArg₂ (· ++ ·)
      (alike.block_eq fun other inBlock => same ▸ (apart.keyBlock stored held other inBlock).symm)
      (alike.tail_eq fun other inPayloads =>
        same ▸ (apart.keyPayloads stored held other inPayloads).symm)
  · have listed : slot.span ∈ Stored.spans 0 first.key :=
      fits.keySpans_eq sound ▸ List.mem_map_of_mem member
    have agree := alike.key.agreeOutside apart.key fits.keyExact fits'.keyExact listed named []
    rwa [List.append_nil, List.append_nil] at agree

/-- Another cell in the block changes no other byte. -/
theorem of_fixed {slot : FixedSlot} (member : slot ∈ layout.fixedSlots)
    (named : slot.field.name = name) :
    first.record.key = second.record.key ∧
      Bytes.AgreeOutside slot.offset slot.width first.record.value second.record.value := by
  have apart := fits.apart sound
  obtain ⟨stored, held, field⟩ := exists_held fits.block member
  have same : stored.field.name = name := field ▸ named
  constructor
  · exact alike.record_key_eq fun other inKey => same ▸ apart.keyBlock other inKey stored held
  · have listed : slot.span ∈ Stored.spans 0 first.block :=
      fits.fixedSpans_eq sound ▸ List.mem_map_of_mem member
    have tails := alike.tail_eq fun other inPayloads =>
      same ▸ (apart.blockPayloads stored held other inPayloads).symm
    rw [record, record, ← tails]
    exact alike.block.agreeOutside apart.block fits.blockExact fits'.blockExact listed named _

/-- Another payload moves those behind it, and the header still leads to them. -/
theorem of_dynamic {slot : DynamicSlot} (member : slot ∈ layout.dynamicSlots)
    (named : slot.field.name = name) :
    first.record.key = second.record.key ∧
      first.record.value.take layout.staticLength = second.record.value.take layout.staticLength ∧
      Bytes.AgreeOutside (Lengths.slotStart slot.ordinal) Lengths.slotWidth
        ((layout.header first.record.value).take (Lengths.wordLength - Lengths.totalWidth))
        ((layout.header second.record.value).take (Lengths.wordLength - Lengths.totalWidth)) ∧
      ∀ other ∈ layout.dynamicSlots, other ≠ slot → ∃ payload,
        layout.payload? first.record.value other = some payload ∧
          layout.payload? second.record.value other = some payload := by
  have apart := fits.apart sound
  have dynamic := List.ne_nil_of_mem member
  obtain ⟨place, here⟩ := List.mem_iff_getElem?.mp member
  obtain ⟨stored, held, field⟩ := fits.exists_payload here
  have inPayloads := List.mem_of_getElem? held
  have same : stored.field.name = name := field ▸ named
  obtain ⟨stored', -, -, parts⟩ := alike.payloads.exists_set apart.payloads held same
  have others (place' : Nat) (elsewhere : place' ≠ place) :
      (second.payloads.map (·.part))[place']? = (first.payloads.map (·.part))[place']? := by
    rw [parts, List.getElem?_set_ne elsewhere.symm]
  refine ⟨?_, ?_, ?_, fun other inSlots distinct => ?_⟩
  · exact alike.record_key_eq fun other inKey =>
      same ▸ apart.keyPayloads other inKey stored inPayloads
  · rw [fits.take_staticLength sound, fits'.take_staticLength sound]
    exact alike.block_eq fun other inBlock =>
      same ▸ apart.blockPayloads other inBlock stored inPayloads
  · rw [fits.header_eq sound dynamic, fits'.header_eq sound dynamic, sound.ordinal_eq here]
    refine Lengths.pack_agreeOutside fun place' elsewhere => ?_
    have part := congrArg (Option.map List.length) (others place' elsewhere)
    rw [List.getElem?_map, List.getElem?_map, Option.map_map, Option.map_map] at part
    rw [Lengths.lengthAt, Lengths.lengthAt, Stored.lengths, Stored.lengths, List.getElem?_map,
      List.getElem?_map]
    exact (congrArg (Option.getD · 0) part).symm
  · obtain ⟨place', there⟩ := List.mem_iff_getElem?.mp inSlots
    have elsewhere : place' ≠ place := by
      rintro rfl
      exact distinct (Option.some.inj (there.symm.trans here))
    obtain ⟨found, inFirst, -⟩ := fits.exists_payload there
    obtain ⟨found', inSecond, -⟩ := fits'.exists_payload there
    have part := others place' elsewhere
    rw [List.getElem?_map, List.getElem?_map, inFirst, inSecond] at part
    refine ⟨found.part, fits.payload?_eq sound there inFirst, ?_⟩
    rw [fits'.payload?_eq sound there inSecond]
    exact part

end AgreeBut

end Filling

/-! ## Planned layouts -/

namespace CodecRules

variable {registry : Registry} {rules limits : SchemaRules} {declaration : TableDeclaration}
  {schema : Schema} {layout : Layout} {codec : CodecRules} {row row' : Row}
  {record record' : Record}

/-- Rows that agree in all fields but one have records that agree outside that field.  A key field
leaves the value as it is and all of the key but its slot; a field of fixed width leaves the key and
all of the value but its slot.  A field of variable width leaves the key, the block, all of the
header but its slot and the total, and the payload of every other field, which each header leads
to. -/
theorem encode_local (reachable : registry.Reachable)
    (validated : rules.validate registry declaration = .ok schema)
    (planned : Layout.plan limits schema = .ok layout)
    (encoded : codec.encode layout row = .ok record)
    (encoded' : codec.encode layout row' = .ok record') {name : String}
    (agree : ∀ other, other ≠ name → row.get? other = row'.get? other) :
    (∀ slot ∈ layout.keySlots, slot.field.name = name → record.value = record'.value ∧
      Bytes.AgreeOutside slot.offset slot.width record.key record'.key) ∧
    (∀ slot ∈ layout.fixedSlots, slot.field.name = name → record.key = record'.key ∧
      Bytes.AgreeOutside slot.offset slot.width record.value record'.value) ∧
    ∀ slot ∈ layout.dynamicSlots, slot.field.name = name → record.key = record'.key ∧
      record.value.take layout.staticLength = record'.value.take layout.staticLength ∧
      Bytes.AgreeOutside (Lengths.slotStart slot.ordinal) Lengths.slotWidth
        ((layout.header record.value).take (Lengths.wordLength - Lengths.totalWidth))
        ((layout.header record'.value).take (Lengths.wordLength - Lengths.totalWidth)) ∧
      ∀ other ∈ layout.dynamicSlots, other ≠ slot → ∃ payload,
        layout.payload? record.value other = some payload ∧
          layout.payload? record'.value other = some payload := by
  have sound := (Layout.stores_of_plan reachable validated planned).sound
  obtain ⟨-, first, fits, writes, rfl⟩ := (encode_eq_ok_iff sound).mp encoded
  obtain ⟨-, second, fits', writes', rfl⟩ := (encode_eq_ok_iff sound).mp encoded'
  have alike := writes.agreeBut sound fits fits' writes' agree
  exact ⟨fun slot => alike.of_key sound fits fits', fun slot => alike.of_fixed sound fits fits',
    fun slot => alike.of_dynamic sound fits fits'⟩

/-- Without its letters a player's name moves the spot up, and the header still leads to it. -/
theorem encode_local_player :
    ∃ record, encode {} Player.layout (Player.row.insert "name" (.string "")) = .ok record ∧
      Player.record.key = record.key ∧
      Player.record.value.take 3 = record.value.take 3 ∧
      Player.layout.payload? Player.record.value ⟨Player.spotField, 3, 1⟩ = some [3, 4] ∧
      Player.layout.payload? record.value ⟨Player.spotField, 3, 1⟩ = some [3, 4] := by
  have encoded : encode {} Player.layout (Player.row.insert "name" (.string "")) =
      .ok ⟨[0, 0, 0, 7], [0, 0xFF, 0xFE] ++ Lengths.pack [0, 2] ++ [3, 4]⟩ := rfl
  have agree : ∀ other, other ≠ "name" →
      Player.row.get? other = (Player.row.insert "name" (.string "")).get? other := by
    intro other different
    rw [Row.get?_insert, if_neg different]
  obtain ⟨key, block, -, payloads⟩ := (encode_local .standard Player.validate_declaration
    Player.plan_schema Player.encode_row encoded agree).2.2 ⟨Player.nameField, 2, 0⟩ (by decide) rfl
  obtain ⟨payload, found, found'⟩ := payloads ⟨Player.spotField, 3, 1⟩ (by decide) (by decide)
  obtain rfl : [3, 4] = payload := by
    have known : Player.layout.payload? Player.record.value ⟨Player.spotField, 3, 1⟩ =
        some [3, 4] := by decide +kernel
    exact Option.some.inj (known.symm.trans found)
  exact ⟨_, encoded, key, block, found, found'⟩

end CodecRules

end PackedTables
