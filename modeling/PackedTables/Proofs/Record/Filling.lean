import PackedTables.Proofs.Layout.Sound
import PackedTables.Proofs.Record.Header
import PackedTables.Proofs.Record.Payload
import PackedTables.Proofs.Row.Entries

/-!
# Fillings

A filling gives each slot of a layout its bytes and the cell that they stand for.  Its record is all
its bytes in their places.  The fields of a layout and the widths of its parts leave a record only
one filling.
-/

namespace PackedTables

/-- What a slot holds. -/
structure Stored where
  field : Field
  part : Bytes
  cell : Cell

namespace Stored

def entry (stored : Stored) : String × Cell := (stored.field.name, stored.cell)

def slot (stored : Stored) : Field × Bytes := (stored.field, stored.part)

/-- The bytes of several slots, one after another. -/
def joined (held : List Stored) : Bytes := (held.map (·.part)).flatten

def lengths (held : List Stored) : List Nat := held.map (·.part.length)

/-- The header and the payloads; nothing where there are no dynamic fields. -/
def tail (held : List Stored) : Bytes :=
  if held.isEmpty then [] else Lengths.pack (lengths held) ++ joined held

def Reads (rules : CodecRules) (stored : Stored) : Prop :=
  stored.field.type.kind.readStored rules.strictBool stored.part = .ok stored.cell

def Spelled (stored : Stored) : Prop :=
  stored.field.type.kind.Spells stored.cell stored.part

def Exact (stored : Stored) : Prop := stored.field.width? = some stored.part.length

@[simp] theorem joined_nil : joined [] = [] := rfl

@[simp] theorem joined_cons (stored : Stored) (rest : List Stored) :
    joined (stored :: rest) = stored.part ++ joined rest := rfl

theorem length_joined (held : List Stored) :
    (joined held).length = Bytes.joinedLength (lengths held) := by
  induction held with
  | nil => rfl
  | cons stored rest ih =>
      rw [joined_cons, List.length_append, ih]
      rfl

/-- Where parts are told apart by their lengths, what they make up tells them. -/
theorem parts_eq {held others : List Stored} (lengths : lengths held = lengths others)
    {back rest : Bytes} (same : joined held ++ back = joined others ++ rest) :
    held.map (·.part) = others.map (·.part) ∧ back = rest := by
  induction held generalizing others with
  | nil =>
      obtain rfl := List.map_eq_nil_iff.mp lengths.symm
      exact ⟨rfl, same⟩
  | cons stored held ih =>
      obtain ⟨other, others, rfl, here, there⟩ := List.map_eq_cons_iff.mp lengths.symm
      rw [joined_cons, joined_cons, List.append_assoc, List.append_assoc] at same
      obtain ⟨part, following⟩ := List.append_inj same here.symm
      obtain ⟨parts, ends⟩ := ih there.symm following
      exact ⟨by rw [List.map_cons, part, parts, List.map_cons], ends⟩

theorem lengths_eq_of_parts {held others : List Stored}
    (parts : held.map (·.part) = others.map (·.part)) : lengths held = lengths others := by
  have sizes := congrArg (List.map List.length) parts
  rwa [List.map_map, List.map_map] at sizes

theorem joined_eq_of_parts {held others : List Stored}
    (parts : held.map (·.part) = others.map (·.part)) : joined held = joined others :=
  congrArg List.flatten parts

theorem tail_eq_of_parts {held others : List Stored}
    (parts : held.map (·.part) = others.map (·.part)) : tail held = tail others := by
  have empty := congrArg List.isEmpty parts
  rw [List.isEmpty_map, List.isEmpty_map] at empty
  rw [tail, tail, empty, lengths_eq_of_parts parts, joined_eq_of_parts parts]

theorem slots_eq {held others : List Stored} (fields : held.map (·.field) = others.map (·.field))
    (parts : held.map (·.part) = others.map (·.part)) : held.map slot = others.map slot := by
  have zipped := congrArg₂ List.zip fields parts
  rwa [List.zip_map', List.zip_map'] at zipped

theorem lengths_eq_of_exact {held others : List Stored}
    (fields : held.map (·.field) = others.map (·.field)) (exact : ∀ stored ∈ held, stored.Exact)
    (exact' : ∀ stored ∈ others, stored.Exact) : lengths held = lengths others := by
  induction held generalizing others with
  | nil =>
      obtain rfl := List.map_eq_nil_iff.mp fields.symm
      rfl
  | cons stored held ih =>
      obtain ⟨other, others, rfl, named, remaining⟩ := List.map_eq_cons_iff.mp fields.symm
      obtain ⟨here, there⟩ := List.forall_mem_cons.mp exact
      obtain ⟨here', there'⟩ := List.forall_mem_cons.mp exact'
      have length : stored.part.length = other.part.length := by
        rw [Exact, named] at here'
        exact Option.some.inj (here.symm.trans here')
      have following := ih remaining.symm there there'
      rw [lengths] at following ⊢
      rw [List.map_cons, length, following]
      rfl

theorem tail_eq {held : List Stored} {slots : List DynamicSlot} (dynamic : slots ≠ [])
    (fields : held.map (·.field) = slots.map (·.field)) :
    tail held = Lengths.pack (lengths held) ++ joined held := by
  have some : held ≠ [] := fun nothing =>
    dynamic (List.map_eq_nil_iff.mp (nothing ▸ fields.symm))
  rw [tail, if_neg (by simpa using some)]

end Stored

theorem Span.Run.length_joined {start stop : Nat} {spans : List Span}
    (run : Span.Run start spans stop) {held : List Stored}
    (fields : held.map (·.field) = spans.map (·.field)) (exact : ∀ stored ∈ held, stored.Exact) :
    start + (Stored.joined held).length = stop := by
  induction run generalizing held with
  | nil start =>
      obtain rfl := List.map_eq_nil_iff.mp fields
      rfl
  | @cons field start width stop rest sized run ih =>
      obtain ⟨stored, others, rfl, rfl, following⟩ := List.map_eq_cons_iff.mp fields
      have here := exact stored List.mem_cons_self
      have there := ih following fun other member => exact other (List.mem_cons_of_mem _ member)
      obtain rfl := Option.some.inj (sized.symm.trans here)
      rw [Stored.joined_cons, List.length_append, ← Nat.add_assoc]
      exact there

namespace Layout.Sound

variable {layout : Layout} {held : List Stored}

theorem length_key (sound : layout.Sound)
    (fields : held.map (·.field) = layout.keySlots.map (·.field))
    (exact : ∀ stored ∈ held, stored.Exact) : (Stored.joined held).length = layout.keyLength := by
  have spans := fields.trans layout.keySpans_fields.symm
  simpa using sound.keyRun.length_joined spans exact

theorem length_block (sound : layout.Sound)
    (fields : held.map (·.field) = layout.fixedSlots.map (·.field))
    (exact : ∀ stored ∈ held, stored.Exact) :
    (Stored.joined held).length = layout.staticLength := by
  have spans := fields.trans layout.fixedSpans_fields.symm
  simpa using sound.fixedRun.length_joined spans exact

theorem few_lengths (sound : layout.Sound)
    (fields : held.map (·.field) = layout.dynamicSlots.map (·.field)) :
    (Stored.lengths held).length = layout.dynamicSlots.length ∧
      (Stored.lengths held).length ≤ Limits.maxDynamicFields := by
  have count := congrArg List.length fields
  rw [List.length_map, List.length_map] at count
  rw [Stored.lengths, List.length_map, count]
  exact ⟨rfl, sound.within.fewDynamic⟩

end Layout.Sound

structure Filling where
  key : List Stored
  block : List Stored
  payloads : List Stored

namespace Filling

def all (filling : Filling) : List Stored := filling.key ++ filling.block ++ filling.payloads

theorem forall_all_iff {filling : Filling} {holds : Stored → Prop} :
    (∀ stored ∈ filling.all, holds stored) ↔ (∀ stored ∈ filling.key, holds stored) ∧
      (∀ stored ∈ filling.block, holds stored) ∧ ∀ stored ∈ filling.payloads, holds stored := by
  rw [all, List.forall_mem_append, List.forall_mem_append, and_assoc]

def record (filling : Filling) : Record where
  key := Stored.joined filling.key
  value := Stored.joined filling.block ++ Stored.tail filling.payloads

def row (filling : Filling) : Row := Row.ofList (filling.all.map Stored.entry)

/-- Slots of a layout, each part as long as its slot allows. -/
structure Fits (filling : Filling) (layout : Layout) : Prop where
  key : filling.key.map (·.field) = layout.keySlots.map (·.field)
  block : filling.block.map (·.field) = layout.fixedSlots.map (·.field)
  payloads : filling.payloads.map (·.field) = layout.dynamicSlots.map (·.field)
  keyExact : ∀ stored ∈ filling.key, stored.Exact
  blockExact : ∀ stored ∈ filling.block, stored.Exact
  bounded : ∀ length ∈ Stored.lengths filling.payloads, length ≤ Limits.maxDynamicLength

variable {layout : Layout} {filling : Filling}

theorem Fits.fields (fits : filling.Fits layout) : filling.all.map (·.field) = layout.fields := by
  rw [all, List.map_append, List.map_append, fits.key, fits.block, fits.payloads, Layout.fields,
    Layout.valueFields, List.append_assoc]

theorem Fits.type (fits : filling.Fits layout) (sound : layout.Sound) {stored : Stored}
    (member : stored ∈ filling.all) : stored.field.type.Sound :=
  sound.types _ (fits.fields ▸ List.mem_map_of_mem member)

theorem Fits.length_eq (fits : filling.Fits layout) (sound : layout.Sound) {stored : Stored}
    (member : stored ∈ filling.all) {width : Nat}
    (fixed : stored.field.type.kind.width = .fixed width) : stored.part.length = width := by
  have type := fits.type sound member
  have sized := (Field.width?_eq_some_iff type).mpr fixed
  rcases List.mem_append.mp member with inFixed | inPayloads
  · have exact : stored.Exact := by
      rcases List.mem_append.mp inFixed with inKey | inBlock
      · exact fits.keyExact stored inKey
      · exact fits.blockExact stored inBlock
    exact Option.some.inj (exact.symm.trans sized)
  · have listed : stored.field ∈ layout.dynamicSlots.map (·.field) :=
      fits.payloads ▸ List.mem_map_of_mem inPayloads
    obtain ⟨slot, inSlots, same⟩ := List.mem_map.mp listed
    rw [← same, sound.varying slot inSlots] at sized
    cases sized

theorem Fits.payloads_eq_nil (fits : filling.Fits layout) (none : layout.dynamicSlots = []) :
    filling.payloads = [] := by
  have empty := fits.payloads
  rw [none] at empty
  exact List.map_eq_nil_iff.mp empty

theorem Fits.dynamicSlots_ne_nil (fits : filling.Fits layout) {stored : Stored}
    (member : stored ∈ filling.payloads) : layout.dynamicSlots ≠ [] :=
  fun none => List.ne_nil_of_mem member (fits.payloads_eq_nil none)

/-- Fillings of one layout with the same record differ at most in their cells. -/
theorem Fits.slots_eq {other : Filling} (sound : layout.Sound) (fits : filling.Fits layout)
    (fits' : other.Fits layout) (same : filling.record = other.record) :
    filling.all.map Stored.slot = other.all.map Stored.slot := by
  have keyFields := fits.key.trans fits'.key.symm
  have blockFields := fits.block.trans fits'.block.symm
  have payloadFields := fits.payloads.trans fits'.payloads.symm
  have keys : Stored.joined filling.key ++ [] = Stored.joined other.key ++ [] := by
    rw [List.append_nil, List.append_nil]
    exact congrArg Record.key same
  have keyParts := (Stored.parts_eq
    (Stored.lengths_eq_of_exact keyFields fits.keyExact fits'.keyExact) keys).1
  obtain ⟨blockParts, tails⟩ := Stored.parts_eq
    (Stored.lengths_eq_of_exact blockFields fits.blockExact fits'.blockExact)
    (congrArg Record.value same)
  have payloadParts : filling.payloads.map (·.part) = other.payloads.map (·.part) := by
    by_cases none : layout.dynamicSlots = []
    · rw [fits.payloads_eq_nil none, fits'.payloads_eq_nil none]
    · rw [Stored.tail_eq none fits.payloads, Stored.tail_eq none fits'.payloads] at tails
      obtain ⟨headers, joined⟩ := List.append_inj tails (by
        rw [Lengths.length_pack, Lengths.length_pack])
      obtain ⟨counted, few⟩ := sound.few_lengths fits.payloads
      have counted' := (sound.few_lengths fits'.payloads).1
      have lengths := Lengths.pack_injective few fits.bounded fits'.bounded
        (counted'.trans counted.symm) headers
      have payloads : Stored.joined filling.payloads ++ [] = Stored.joined other.payloads ++ [] := by
        rw [joined]
      exact (Stored.parts_eq lengths payloads).1
  rw [all, all, List.map_append, List.map_append, List.map_append, List.map_append,
    Stored.slots_eq keyFields keyParts, Stored.slots_eq blockFields blockParts,
    Stored.slots_eq payloadFields payloadParts]

/-! ## Rows of fillings -/

theorem Fits.distinct (fits : filling.Fits layout) (sound : layout.Sound) :
    ((filling.all.map Stored.entry).map (·.1)).Nodup := by
  have names := sound.distinct
  rw [← fits.fields, List.map_map] at names
  rw [List.map_map]
  exact names

theorem Fits.get?_row (fits : filling.Fits layout) (sound : layout.Sound) {stored : Stored}
    (member : stored ∈ filling.all) : filling.row.get? stored.field.name = some stored.cell :=
  (Row.get?_ofList (fits.distinct sound)).mpr (List.mem_map_of_mem member)

theorem Fits.get?_row_eq_some_iff (fits : filling.Fits layout) (sound : layout.Sound)
    {name : String} {cell : Cell} : filling.row.get? name = some cell ↔
      ∃ stored ∈ filling.all, stored.field.name = name ∧ stored.cell = cell := by
  rw [row, Row.get?_ofList (fits.distinct sound), List.mem_map]
  simp only [Stored.entry, Prod.mk.injEq]

theorem Fits.cells_eq (fits : filling.Fits layout) (sound : layout.Sound) :
    layout.fields.map (fun field => filling.row.get? field.name) =
      filling.all.map fun stored => some stored.cell := by
  rw [← fits.fields, List.map_map]
  exact List.map_congr_left fun stored member => fits.get?_row sound member

theorem Fits.contains_row_iff (fits : filling.Fits layout) (sound : layout.Sound) {name : String} :
    (filling.row.get? name).isSome = true ↔ ∃ field ∈ layout.fields, field.name = name := by
  rw [Option.isSome_iff_exists]
  constructor
  · rintro ⟨cell, found⟩
    obtain ⟨stored, member, named, -⟩ := (fits.get?_row_eq_some_iff sound).mp found
    exact ⟨stored.field, fits.fields ▸ List.mem_map_of_mem member, named⟩
  · rintro ⟨field, member, rfl⟩
    rw [← fits.fields] at member
    obtain ⟨stored, held, rfl⟩ := List.mem_map.mp member
    exact ⟨stored.cell, fits.get?_row sound held⟩

end Filling

end PackedTables
