import PackedTables.Proofs.Record.Single

/-!
# Places

Where the parts of a filling stand in its record.  The slots of the key and of the block have their
places in the layout; those of the payloads follow from the header, each behind the payloads before
it.
-/

namespace PackedTables

namespace Layout

/-- The header of a value. -/
def header (layout : Layout) (value : Bytes) : Bytes :=
  (value.drop layout.staticLength).take Lengths.wordLength

/-- Where a payload starts, as the header tells it. -/
def payloadOffset (layout : Layout) (value : Bytes) (slot : DynamicSlot) : Nat :=
  layout.payloadStart +
    Lengths.total ((layout.dynamicSlots.take slot.ordinal).map (layout.payloadLength value))

def payloadSpan (layout : Layout) (value : Bytes) (slot : DynamicSlot) : Span :=
  ⟨slot.field, layout.payloadOffset value slot, layout.payloadLength value slot⟩

def payloadSpans (layout : Layout) (value : Bytes) : List Span :=
  layout.dynamicSlots.map (layout.payloadSpan value)

/-- The payload of a field, found through the header. -/
def payload? (layout : Layout) (value : Bytes) (slot : DynamicSlot) : Option Bytes :=
  value.slice? (layout.payloadOffset value slot) (layout.payloadLength value slot)

end Layout

namespace Stored

/-- The stretches of several slots, one behind the other. -/
def spans (start : Nat) : List Stored → List Span
  | [] => []
  | stored :: rest =>
      ⟨stored.field, start, stored.part.length⟩ :: spans (start + stored.part.length) rest

variable {held : List Stored} {place : Nat} {stored : Stored}

theorem length_spans (start : Nat) (held : List Stored) :
    (spans start held).length = held.length := by
  induction held generalizing start with
  | nil => rfl
  | cons stored rest ih => rw [spans, List.length_cons, ih, List.length_cons]

theorem getElem?_spans (start : Nat) (here : held[place]? = some stored) :
    (spans start held)[place]? =
      some ⟨stored.field, start + (joined (held.take place)).length, stored.part.length⟩ := by
  induction held generalizing start place with
  | nil => cases here
  | cons first rest ih =>
      cases place with
      | zero =>
          obtain rfl := Option.some.inj here
          rfl
      | succ place =>
          rw [spans, List.getElem?_cons_succ, ih _ here, List.take_succ_cons, joined_cons,
            List.length_append, Nat.add_assoc]

end Stored

/-- The slots of a run are the stretches of what is held for them. -/
theorem Span.Run.spans_eq {start stop : Nat} {spans : List Span} (run : Span.Run start spans stop)
    {held : List Stored} (fields : held.map (·.field) = spans.map (·.field))
    (exact : ∀ stored ∈ held, stored.Exact) : spans = Stored.spans start held := by
  induction run generalizing held with
  | nil =>
      obtain rfl := List.map_eq_nil_iff.mp fields
      rfl
  | @cons field start width stop spans sized run ih =>
      obtain ⟨stored, others, rfl, rfl, remaining⟩ := List.map_eq_cons_iff.mp fields
      obtain ⟨here, there⟩ := List.forall_mem_cons.mp exact
      obtain rfl := Option.some.inj (sized.symm.trans here)
      rw [Stored.spans, ← ih remaining there]

namespace Filling.Fits

variable {layout : Layout} {filling : Filling} (fits : filling.Fits layout) (sound : layout.Sound)
include fits

theorem exists_payload {place : Nat} {slot : DynamicSlot}
    (here : layout.dynamicSlots[place]? = some slot) :
    ∃ stored, filling.payloads[place]? = some stored ∧ stored.field = slot.field := by
  have fields := congrArg (·[place]?) fits.payloads
  simp only [List.getElem?_map, here, Option.map_some] at fields
  exact Option.map_eq_some_iff.mp fields

include sound

theorem keySpans_eq : layout.keySpans = Stored.spans 0 filling.key :=
  sound.keyRun.spans_eq (fits.key.trans layout.keySpans_fields.symm) fits.keyExact

theorem fixedSpans_eq : layout.fixedSpans = Stored.spans 0 filling.block :=
  sound.fixedRun.spans_eq (fits.block.trans layout.fixedSpans_fields.symm) fits.blockExact

theorem payloadLength_of_getElem? {place : Nat} {slot : DynamicSlot} {stored : Stored}
    (here : layout.dynamicSlots[place]? = some slot)
    (held : filling.payloads[place]? = some stored) :
    layout.payloadLength filling.record.value slot = stored.part.length := by
  have lengths := congrArg (·[place]?) (fits.payloadLength_eq sound)
  simp only [Stored.lengths, List.getElem?_map, here, held, Option.map_some] at lengths
  exact Option.some.inj lengths

theorem payloadOffset_of_getElem? {place : Nat} {slot : DynamicSlot}
    (here : layout.dynamicSlots[place]? = some slot) :
    layout.payloadOffset filling.record.value slot =
      layout.payloadStart + Lengths.total ((Stored.lengths filling.payloads).take place) := by
  rw [Layout.payloadOffset, sound.ordinal_eq here, List.map_take, fits.payloadLength_eq sound]

theorem payloadSpans_eq : layout.payloadSpans filling.record.value =
    Stored.spans layout.payloadStart filling.payloads := by
  have counted := congrArg List.length fits.payloads
  rw [List.length_map, List.length_map] at counted
  apply List.ext_getElem?
  intro place
  cases here : layout.dynamicSlots[place]? with
  | none =>
      have beyond := List.getElem?_eq_none_iff.mp here
      rw [List.getElem?_eq_none (by rw [Layout.payloadSpans, List.length_map]; exact beyond),
        List.getElem?_eq_none (by rw [Stored.length_spans, counted]; exact beyond)]
  | some slot =>
      obtain ⟨stored, held, named⟩ := fits.exists_payload here
      rw [Stored.getElem?_spans _ held, Layout.payloadSpans, List.getElem?_map, here,
        Option.map_some, Layout.payloadSpan, fits.payloadOffset_of_getElem? sound here,
        fits.payloadLength_of_getElem? sound here held, named,
        Stored.length_joined, Stored.lengths, Stored.lengths, List.map_take, Lengths.total]

/-- The header leads to each payload. -/
theorem payload?_eq {place : Nat} {slot : DynamicSlot} {stored : Stored}
    (here : layout.dynamicSlots[place]? = some slot)
    (held : filling.payloads[place]? = some stored) :
    layout.payload? filling.record.value slot = some stored.part := by
  rw [Layout.payload?, fits.payloadOffset_of_getElem? sound here,
    fits.payloadLength_of_getElem? sound here held]
  exact fits.slice?_payload sound held

theorem take_staticLength :
    filling.record.value.take layout.staticLength = Stored.joined filling.block :=
  List.take_left' (sound.length_block fits.block fits.blockExact)

theorem header_eq (some : layout.dynamicSlots ≠ []) :
    layout.header filling.record.value = Lengths.pack (Stored.lengths filling.payloads) := by
  rw [Layout.header, Filling.record, Stored.tail_eq some fits.payloads,
    List.drop_left' (sound.length_block fits.block fits.blockExact),
    List.take_left' (Lengths.length_pack _)]

end Filling.Fits

end PackedTables
