import PackedTables.Proofs.Record.Reading

/-!
# Records that are refused

The record of a filling has the right lengths throughout.  So it is refused only for a part that
denotes no cell, and the refusal names the field of that part.
-/

namespace PackedTables

variable {rules : CodecRules}

theorem Field.readStretch_eq_error {field : Field} {read : Bytes → Except ByteFlaw Cell}
    {bytes part : Bytes} {start width : Nat} {flaw : RecordFlaw}
    (cut : Layout.part bytes start width = .ok part)
    (refused : (do
      let part ← Layout.part bytes start width
      let cell ← (read part).mapError (RecordFlaw.inField field.name)
      return (field.name, cell)) = Except.error flaw) :
    ∃ cause, read part = .error cause ∧ flaw = .inField field.name cause := by
  rcases Outcome.bind_eq_error.mp refused with uncut | ⟨found, here, refused⟩
  · rw [cut] at uncut
    cases uncut
  · obtain rfl := Except.ok.inj (cut.symm.trans here)
    rcases Outcome.bind_eq_error.mp refused with unread | ⟨cell, there, impossible⟩
    · obtain ⟨cause, unread, same⟩ := Outcome.mapError_eq_error.mp unread
      exact ⟨cause, unread, same.symm⟩
    · cases impossible

/-- The slots of a run and what is held for them, each slot with its own part. -/
theorem Span.Run.exists_pairs {start stop : Nat} {spans : List Span}
    (run : Span.Run start spans stop) {held : List Stored}
    (fields : held.map (·.field) = spans.map (·.field)) (exact : ∀ stored ∈ held, stored.Exact)
    (front back : Bytes) (placed : front.length = start) :
    ∃ pairs : List (Span × Stored), pairs.map (·.1) = spans ∧ pairs.map (·.2) = held ∧
      ∀ pair ∈ pairs, pair.2.field = pair.1.field ∧
        Layout.part (front ++ (Stored.joined held ++ back)) pair.1.offset pair.1.width =
          .ok pair.2.part := by
  induction run generalizing held front with
  | nil =>
      obtain rfl := List.map_eq_nil_iff.mp fields
      exact ⟨[], rfl, rfl, by simp⟩
  | @cons field start width stop spans sized run ih =>
      obtain ⟨stored, others, rfl, rfl, remaining⟩ := List.map_eq_cons_iff.mp fields
      obtain ⟨here, there⟩ := List.forall_mem_cons.mp exact
      obtain rfl := Option.some.inj (sized.symm.trans here)
      subst placed
      obtain ⟨pairs, rfl, rfl, each⟩ :=
        ih remaining there (front ++ stored.part) List.length_append
      rw [Stored.joined_cons, List.append_assoc]
      simp only [List.append_assoc] at each
      refine ⟨(⟨stored.field, front.length, stored.part.length⟩, stored) :: pairs, rfl, rfl, ?_⟩
      exact List.forall_mem_cons.mpr ⟨⟨rfl, Layout.part_eq_ok_iff.mpr ⟨_, rfl, rfl⟩⟩, each⟩

/-- Each slot of a run finds its own part. -/
theorem Span.Run.part_eq {start stop : Nat} {spans : List Span} (run : Span.Run start spans stop)
    {held : List Stored} (fields : held.map (·.field) = spans.map (·.field))
    (exact : ∀ stored ∈ held, stored.Exact) (front back : Bytes) (placed : front.length = start) :
    ∀ span ∈ spans, ∃ stored ∈ held, stored.field = span.field ∧
      Layout.part (front ++ (Stored.joined held ++ back)) span.offset span.width =
        .ok stored.part := by
  obtain ⟨pairs, rfl, rfl, each⟩ := run.exists_pairs fields exact front back placed
  intro span member
  obtain ⟨pair, inPairs, rfl⟩ := List.mem_map.mp member
  exact ⟨pair.2, List.mem_map_of_mem inPairs, each pair inPairs⟩

namespace CodecRules

variable {layout : Layout} {filling : Filling} {flaw : RecordFlaw}

/-- A flaw of some slot is a part that cannot be read. -/
def Blames (rules : CodecRules) (held : List Stored) (flaw : RecordFlaw) : Prop :=
  ∃ stored ∈ held, ∃ cause, stored.field.type.kind.readStored rules.strictBool stored.part =
    .error cause ∧ flaw = .inField stored.field.name cause

theorem readSlots_eq_error {slotType : Type} {slots : List slotType} {span : slotType → Span}
    {stop : Nat} (run : Span.Run 0 (slots.map span) stop)
    (types : ∀ slot ∈ slots, (span slot).field.type.Sound) {held : List Stored}
    (fields : held.map (·.field) = slots.map fun slot => (span slot).field)
    (exact : ∀ stored ∈ held, stored.Exact) {back : Bytes}
    (refused : slots.mapM (fun slot => (span slot).field.readPart rules
      (Stored.joined held ++ back) (span slot).offset (span slot).width) = .error flaw) :
    rules.Blames held flaw := by
  obtain ⟨slot, member, refused⟩ := Outcome.mapM_eq_error refused
  have spans : held.map (·.field) = (slots.map span).map (·.field) := by
    rw [fields, List.map_map]
    rfl
  have listed : span slot ∈ slots.map span := List.mem_map_of_mem member
  obtain ⟨stored, inHeld, named, found⟩ :=
    run.part_eq spans exact [] back rfl (span slot) listed
  have fixed := (Field.width?_eq_some_iff (types slot member)).mp (run.sized _ listed)
  obtain ⟨cause, unread, same⟩ := Field.readStretch_eq_error found refused
  refine ⟨stored, inHeld, cause, ?_, named ▸ same⟩
  rw [named, Kind.readStored_of_fixed fixed]
  exact unread

theorem readPayloads_eq_error {slots : List DynamicSlot}
    (types : ∀ slot ∈ slots, slot.field.type.Sound)
    (varying : ∀ slot ∈ slots, slot.field.width? = none) {held : List Stored}
    (fields : held.map (·.field) = slots.map (·.field)) (front : Bytes)
    (refused : rules.readPayloads (front ++ Stored.joined held) front.length slots
      (Stored.lengths held) = .error flaw) : rules.Blames held flaw := by
  induction slots generalizing held front with
  | nil =>
      obtain rfl := List.map_eq_nil_iff.mp fields
      cases refused
  | cons slot slots ih =>
      obtain ⟨stored, others, rfl, named, remaining⟩ := List.map_eq_cons_iff.mp fields
      obtain ⟨type, types⟩ := List.forall_mem_cons.mp types
      obtain ⟨unfixed, varying⟩ := List.forall_mem_cons.mp varying
      have found : Layout.part (front ++ Stored.joined (stored :: others)) front.length
          stored.part.length = .ok stored.part :=
        Layout.part_eq_ok_iff.mpr ⟨_, rfl, rfl⟩
      have refused := (readPayloads_cons _ _ _ _ _ _ _).symm.trans refused
      rcases Outcome.bind_eq_error.mp refused with here | ⟨entry, here, continued⟩
      · obtain ⟨cause, unread, same⟩ := Field.readStretch_eq_error found here
        refine ⟨stored, List.mem_cons_self, cause, ?_, named ▸ same⟩
        rw [named, Kind.readStored_of_varying ((Field.width?_eq_none_iff type).mp unfixed)]
        exact unread
      · rcases Outcome.bind_eq_error.mp continued with there | ⟨entries, there, impossible⟩
        · rw [Stored.joined_cons, ← List.append_assoc, ← List.length_append] at there
          obtain ⟨other, member, blamed⟩ := ih types varying remaining _ there
          exact ⟨other, List.mem_cons_of_mem _ member, blamed⟩
        · cases impossible

/-! ## Parts of a record -/

theorem readBlock_eq_error (sound : layout.Sound) (fits : filling.Fits layout) {tail : Bytes}
    (refused : rules.readBlock layout (Stored.joined filling.block ++ tail) = .error flaw) :
    rules.Blames filling.block flaw := by
  have length := sound.length_block fits.block fits.blockExact
  unfold readBlock at refused
  rw [if_neg (by rw [List.length_append]; omega)] at refused
  exact readSlots_eq_error sound.fixedRun (fun _ => sound.fixedType) fits.block fits.blockExact
    refused

theorem readTail_eq_error (sound : layout.Sound) (fits : filling.Fits layout) {block : Bytes}
    (placed : block.length = layout.staticLength)
    (refused : rules.readTail layout (block ++ Stored.tail filling.payloads) = .error flaw) :
    rules.Blames filling.payloads flaw := by
  unfold readTail at refused
  by_cases none : layout.dynamicSlots = []
  · have undynamic : layout.hasDynamic = false := by simp [Layout.hasDynamic, none]
    rw [undynamic, if_neg (by decide), fits.payloads_eq_nil none] at refused
    rw [if_pos (by rw [List.length_append, placed]; rfl)] at refused
    cases refused
  · have dynamic : layout.hasDynamic = true := by simp [Layout.hasDynamic, none]
    have start : layout.payloadStart =
        (block ++ Lengths.pack (Stored.lengths filling.payloads)).length := by
      rw [List.length_append, placed, Lengths.length_pack, Layout.payloadStart]
    rw [dynamic, if_pos rfl, Stored.tail_eq none fits.payloads,
      (readLengths_eq_ok_iff sound placed).mpr
        ⟨(sound.few_lengths fits.payloads).1, fits.bounded, _, rfl⟩] at refused
    simp only at refused
    rw [← List.append_assoc, if_pos, start] at refused
    · exact readPayloads_eq_error (fun _ => sound.dynamicType) sound.varying fits.payloads _ refused
    · rw [List.length_append, start, Stored.length_joined, Lengths.total]

/-! ## Whole records -/

theorem Blames.mono {held others : List Stored} (inside : ∀ stored ∈ held, stored ∈ others)
    (blames : rules.Blames held flaw) : rules.Blames others flaw := by
  obtain ⟨stored, member, blamed⟩ := blames
  exact ⟨stored, inside stored member, blamed⟩

/-- A record with the lengths that its layout calls for is refused only for one of its parts. -/
theorem decode_eq_error (sound : layout.Sound) (fits : filling.Fits layout) {fault : Fault}
    (refused : rules.decode layout filling.record = .error fault) :
    ∃ flaw, rules.Blames filling.all flaw ∧ fault = .malformedRecord layout.table flaw := by
  obtain ⟨flaw, flawed, same⟩ := Outcome.mapError_eq_error.mp refused
  refine ⟨flaw, ?_, same.symm⟩
  rcases Outcome.bind_eq_error.mp (Outcome.map_eq_error.mp flawed) with unsized | ⟨_, -, flawed⟩
  · have sized := checkKeyLength_eq_ok_iff.mpr (sound.length_key fits.key fits.keyExact)
    cases unsized.symm.trans sized
  · rcases Outcome.bind_eq_error.mp flawed with key | ⟨_, -, flawed⟩
    · rw [← List.append_nil filling.record.key] at key
      refine (readSlots_eq_error sound.keyRun (fun _ => sound.keyType) fits.key fits.keyExact
        key).mono fun stored member => ?_
      exact List.mem_append_left _ (List.mem_append_left _ member)
    · rcases Outcome.bind_eq_error.mp flawed with block | ⟨_, -, flawed⟩
      · apply (readBlock_eq_error sound fits block).mono
        intro stored member
        exact List.mem_append_left _ (List.mem_append_right _ member)
      · rcases Outcome.bind_eq_error.mp flawed with tail | ⟨_, -, impossible⟩
        · have placed := sound.length_block fits.block fits.blockExact
          exact (readTail_eq_error sound fits placed tail).mono fun stored member =>
            List.mem_append_right _ member
        · cases impossible

end CodecRules

end PackedTables
