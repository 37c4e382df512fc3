import PackedTables.Proofs.Layout.Placement
import PackedTables.Proofs.Record.Acceptance
import PackedTables.Proofs.Record.RoundTrip
import PackedTables.Proofs.Text.Order

/-!
# Rows that are refused

Which rows a writer accepts, and of several faults of a row the one that it tells.  Names come
first, the lowest one by its bytes.  Then come the slots of the key, of the fixed block and of the
payloads, each in order.
-/

namespace PackedTables

namespace Layout

open Outcome (Settles FirstFails)

/-- A name of some field. -/
def Knows (layout : Layout) (name : String) : Prop := ∃ field ∈ layout.fields, field.name = name

/-- What a row that can be written has to be. -/
structure Accepts (layout : Layout) (rules : CodecRules) (row : Row) : Prop where
  known : ∀ name ∈ row.names, layout.Knows name
  keyed : ∀ slot ∈ layout.keySlots, (row.get? slot.field.name).isSome = true
  suited : ∀ field ∈ layout.fields, field.Suited row
  short : ∀ slot ∈ layout.dynamicSlots, ∀ cell, row.get? slot.field.name = some cell →
    slot.field.type.kind.payloadLength cell ≤ min rules.maxDynamicLength (2 ^ 40 - 1)

/-- The first fault of a row: everything that comes before it is right. -/
inductive Refuses (layout : Layout) (rules : CodecRules) (row : Row) : Fault → Prop
  | unknown {name : String} : name ∈ row.names → ¬layout.Knows name →
      (∀ other ∈ row.names, ¬layout.Knows other → other ≠ name →
        Utf8.encode name < Utf8.encode other) →
      Refuses layout rules row (.unknownField layout.table name)
  | key {fault : Fault} : (∀ name ∈ row.names, layout.Knows name) →
      FirstFails (fun slot => slot.field.KeySuited row)
        (fun slot => slot.field.KeyFault layout.table row) layout.keySlots fault →
      Refuses layout rules row fault
  | fixed {fault : Fault} : (∀ name ∈ row.names, layout.Knows name) →
      (∀ slot ∈ layout.keySlots, slot.field.KeySuited row) →
      FirstFails (fun slot => slot.field.Suited row)
        (fun slot => slot.field.Unsuited layout.table row) layout.fixedSlots fault →
      Refuses layout rules row fault
  | payload {fault : Fault} : (∀ name ∈ row.names, layout.Knows name) →
      (∀ slot ∈ layout.keySlots, slot.field.KeySuited row) →
      (∀ slot ∈ layout.fixedSlots, slot.field.Suited row) →
      FirstFails (fun slot => slot.field.PayloadSuited rules.payloadLimit row)
        (fun slot => slot.field.PayloadUnsuited layout.table rules.payloadLimit row)
        layout.dynamicSlots fault →
      Refuses layout rules row fault

/-- Each slot of the fixed block is written at its offset, behind the slots before it. -/
def WritesBlock (layout : Layout) (row : Row) (value : Bytes) : Prop :=
  ∀ before slot after, layout.fixedSlots = before ++ slot :: after →
    ∃ front part rest, value = front ++ part ++ rest ∧
      List.flatten <$> before.mapM (layout.writeFixedSlot row) = .ok front ∧
      front.length = slot.offset ∧ part.length = slot.width ∧
      ∃ cell, Stored.Written row ⟨slot.field, part, cell⟩

variable {layout : Layout} {rules : CodecRules} {row : Row}

/-! ## Names -/

theorem position?_isNone_iff {name : String} :
    (layout.position? name).isNone = true ↔ ¬layout.Knows name := by
  rw [Knows, ← position?_isSome_iff]
  cases layout.position? name <;> simp

/-- The strange name that is told is the lowest one by its bytes. -/
theorem least_of_strangeName? {name : String} (strange : layout.strangeName? row = some name) :
    name ∈ row.names ∧ ¬layout.Knows name ∧
      ∀ other ∈ row.names, ¬layout.Knows other → other ≠ name →
        Utf8.encode name < Utf8.encode other := by
  obtain ⟨unknown, before, after, names, known⟩ := List.find?_eq_some_iff_append.mp strange
  have ordered : row.names.Pairwise (· < ·) := List.pairwise_map.mpr row.ascending
  rw [names] at ordered ⊢
  refine ⟨by simp, position?_isNone_iff.mp unknown, fun other member strange different => ?_⟩
  rcases List.mem_append.mp member with inBefore | inRest
  · have familiar := known other inBefore
    rw [position?_isNone_iff.mpr strange] at familiar
    cases familiar
  · rcases List.mem_cons.mp inRest with same | inAfter
    · exact absurd same different
    · have above := (List.pairwise_cons.mp (List.pairwise_append.mp ordered).2.1).1
      exact Utf8.encode_lt (above other inAfter)

theorem refuses_iff_of_strange {name : String} (strange : layout.strangeName? row = some name)
    {fault : Fault} :
    layout.Refuses rules row fault ↔ fault = .unknownField layout.table name := by
  obtain ⟨member, unknown, least⟩ := least_of_strangeName? strange
  constructor
  · intro refuses
    cases refuses with
    | @unknown other listed stranger lowest =>
        by_cases same : other = name
        · rw [same]
        · have below := least other listed stranger same
          have above := lowest name member unknown (Ne.symm same)
          exact absurd above (List.lt_asymm below)
    | key known => exact absurd (known name member) unknown
    | fixed known => exact absurd (known name member) unknown
    | payload known => exact absurd (known name member) unknown
  · rintro rfl
    exact .unknown member unknown least

theorem refuses_iff_of_known (known : ∀ name ∈ row.names, layout.Knows name) {fault : Fault} :
    layout.Refuses rules row fault ↔
      FirstFails (fun slot => slot.field.KeySuited row)
          (fun slot => slot.field.KeyFault layout.table row) layout.keySlots fault ∨
        (∀ slot ∈ layout.keySlots, slot.field.KeySuited row) ∧
          (FirstFails (fun slot => slot.field.Suited row)
              (fun slot => slot.field.Unsuited layout.table row) layout.fixedSlots fault ∨
            (∀ slot ∈ layout.fixedSlots, slot.field.Suited row) ∧
              FirstFails (fun slot => slot.field.PayloadSuited rules.payloadLimit row)
                (fun slot => slot.field.PayloadUnsuited layout.table rules.payloadLimit row)
                layout.dynamicSlots fault) := by
  constructor
  · intro refuses
    cases refuses with
    | unknown member stranger => exact absurd (known _ member) stranger
    | key _ first => exact .inl first
    | fixed _ keys first => exact .inr ⟨keys, .inl first⟩
    | payload _ keys block first => exact .inr ⟨keys, .inr ⟨block, first⟩⟩
  · rintro (first | ⟨keys, first | ⟨block, first⟩⟩)
    · exact .key known first
    · exact .fixed known keys first
    · exact .payload known keys block first

/-! ## Whole rows -/

theorem accepts_iff :
    layout.Accepts rules row ↔ (∀ name ∈ row.names, layout.Knows name) ∧
      (∀ slot ∈ layout.keySlots, slot.field.KeySuited row) ∧
      (∀ slot ∈ layout.fixedSlots, slot.field.Suited row) ∧
      ∀ slot ∈ layout.dynamicSlots, slot.field.PayloadSuited rules.payloadLimit row := by
  constructor
  · intro accepts
    have suited := accepts.suited
    simp only [fields, valueFields, List.forall_mem_append, List.forall_mem_map] at suited
    obtain ⟨keys, block, payloads⟩ := suited
    refine ⟨accepts.known, fun slot member => ⟨accepts.keyed slot member, keys slot member⟩, block,
      fun slot member cell given => ⟨payloads slot member cell given, ?_⟩⟩
    exact accepts.short slot member cell given
  · rintro ⟨known, keys, block, payloads⟩
    refine ⟨known, fun slot member => (keys slot member).1, ?_, fun slot member cell given => ?_⟩
    · simp only [fields, valueFields, List.forall_mem_append, List.forall_mem_map]
      exact ⟨fun slot member => (keys slot member).2, block,
        fun slot member cell given => (payloads slot member cell given).1⟩
    · exact (payloads slot member cell given).2

theorem settles_encode (sound : layout.Sound) :
    Settles (rules.encode layout row) (layout.Accepts rules row) (layout.Refuses rules row) := by
  unfold CodecRules.encode
  cases strange : layout.strangeName? row with
  | some name =>
      obtain ⟨member, unknown, -⟩ := least_of_strangeName? strange
      refine (Settles.of_error _).congr (iff_of_false id fun accepts => ?_) fun fault => ?_
      · exact unknown (accepts.known name member)
      · exact (refuses_iff_of_strange strange).symm
  | none =>
      have known : ∀ name ∈ row.names, layout.Knows name := strangeName?_eq_none_iff.mp strange
      have keys : Settles (layout.writeKey row) _ _ :=
        (Settles.mapM fun _ member => settles_writeKeySlot
          (Field.scalar_of_width? (sound.keyType member) (sound.keyWidth member))).map List.flatten
      have block : Settles (layout.writeBlock row) _ _ :=
        (Settles.mapM fun _ member => settles_writeFixedSlot
          (Field.scalar_of_width? (sound.fixedType member) (sound.fixedWidth member))).map
            List.flatten
      have tail : Settles (rules.writeTail layout row) _ _ := CodecRules.settles_writeTail sound
      refine (keys.bind fun key _ => block.bind fun block _ => tail.bind fun tail _ =>
        Settles.of_ok (Record.mk key (block ++ tail))).congr ?_ fun fault => ?_
      · rw [accepts_iff, and_true]
        exact (and_iff_right known).symm
      · simp [refuses_iff_of_known known]

theorem Refuses.not_layoutLimit {fault : Fault} (refuses : layout.Refuses rules row fault)
    (table : String) (flaw : LimitFlaw) : fault ≠ .layoutLimit table flaw := by
  have cellFault {field : Field} {expected : String} {cause : CellFault} :
      cause.inField layout.table field expected ≠ .layoutLimit table flaw := by
    cases cause <;> exact Fault.noConfusion
  have unsuitedFault {field : Field} {fault : Fault}
      (unsuited : field.Unsuited layout.table row fault) : fault ≠ .layoutLimit table flaw := by
    cases unsuited with
    | misfit given misfit => exact cellFault
  cases refuses with
  | unknown => exact Fault.noConfusion
  | key known first =>
      obtain ⟨before, slot, after, split, passed, failed⟩ := first
      cases failed with
      | missing => exact Fault.noConfusion
      | unsuited unsuited => exact unsuitedFault unsuited
  | fixed known keys first =>
      obtain ⟨before, slot, after, split, passed, failed⟩ := first
      exact unsuitedFault failed
  | payload known keys block first =>
      obtain ⟨before, slot, after, split, passed, failed⟩ := first
      cases failed with
      | misfit given failed =>
          cases failed with
          | form different => exact Fault.noConfusion
          | count pinned unequal => exact Fault.noConfusion
          | element same counted first => exact cellFault
      | long given takes long => exact Fault.noConfusion

/-! ## The fixed block -/

theorem writesBlock_of_writeBlock (sound : layout.Sound) {block : Bytes}
    (written : layout.writeBlock row = .ok block) (tail : Bytes) :
    layout.WritesBlock row (block ++ tail) := by
  intro before slot after split
  obtain ⟨parts, run, rfl⟩ := Outcome.map_eq_ok.mp written
  obtain ⟨pairs, slots, rfl, each⟩ := Outcome.mapM_eq_ok.mp run
  rw [split] at slots
  obtain ⟨front, rest, rfl, rfl, others⟩ := List.map_eq_append_iff.mp slots
  obtain ⟨pair, back, rfl, rfl, rfl⟩ := List.map_eq_cons_iff.mp others
  have exact : ∀ other ∈ front ++ pair :: back,
      (∃ cell, Stored.Written row ⟨other.1.field, other.2, cell⟩) ∧
        other.2.length = other.1.width := by
    intro other inPairs
    have member : other.1 ∈ layout.fixedSlots := by
      have listed : other.1 ∈ (front ++ pair :: back).map (·.1) := List.mem_map_of_mem inPairs
      rwa [List.map_append, List.map_cons, ← split] at listed
    have type := sound.fixedType member
    have sized := sound.fixedWidth member
    obtain ⟨cell, holds⟩ := (writeFixedSlot_eq_ok_iff (Field.scalar_of_width? type sized)).mp
      (each other inPairs)
    have length : other.1.field.width? = some other.2.length := holds.exact type sized
    exact ⟨⟨cell, holds⟩, Option.some.inj (length.symm.trans sized)⟩
  refine ⟨(front.map (·.2)).flatten, pair.2, (back.map (·.2)).flatten ++ tail, by simp, ?_, ?_,
    (exact pair (by simp)).2, (exact pair (by simp)).1⟩
  · refine Outcome.map_eq_ok.mpr ⟨front.map (·.2),
      Outcome.mapM_eq_ok.mpr ⟨front, rfl, rfl, ?_⟩, rfl⟩
    exact fun pair member => each pair (List.mem_append_left _ member)
  · have here : layout.fixedSpans[front.length]? = some pair.1.span := by
      simp [fixedSpans, split]
    have placed := sound.fixedRun.offset_eq here
    have widths : (front.map (·.2)).map List.length =
        (layout.fixedSpans.take front.length).map (·.width) := by
      rw [fixedSpans, split, ← List.map_take, List.take_left' (by simp), List.map_map, List.map_map,
        List.map_map]
      exact List.map_congr_left fun pair member => (exact pair (List.mem_append_left _ member)).2
    rw [Bytes.length_flatten, widths]
    exact (placed.trans (Nat.zero_add _)).symm

theorem writesBlock_of_encode (sound : layout.Sound) {record : Record}
    (encoded : rules.encode layout row = .ok record) : layout.WritesBlock row record.value := by
  unfold CodecRules.encode at encoded
  split at encoded
  · cases encoded
  · obtain ⟨key, -, encoded⟩ := Outcome.bind_eq_ok.mp encoded
    obtain ⟨block, written, encoded⟩ := Outcome.bind_eq_ok.mp encoded
    obtain ⟨tail, -, encoded⟩ := Outcome.bind_eq_ok.mp encoded
    obtain rfl := Outcome.pure_eq_ok.mp encoded
    exact writesBlock_of_writeBlock sound written tail

end Layout

namespace Player

/-- A row with two faults: a depth out of range, and three places where two are due. -/
def deepRow : Row :=
  Row.ofList [("id", .uint 7), ("depth", .int 32768), ("spot", .array [.uint 1, .uint 2, .uint 3])]

end Player

namespace CodecRules

variable {registry : Registry} {rules limits : SchemaRules} {declaration : TableDeclaration}
  {schema : Schema} {layout : Layout}

/--
A row is written exactly when the layout accepts it, and refused otherwise for its first fault.  No
limit of a layout is ever told as one.  In a written value each slot of the fixed block stands at its
offset.
-/
theorem encode_refuses_first (reachable : registry.Reachable)
    (validated : rules.validate registry declaration = .ok schema)
    (planned : Layout.plan limits schema = .ok layout) (codec : CodecRules) (row : Row) :
    ((∃ record, codec.encode layout row = .ok record) ↔ layout.Accepts codec row) ∧
      (∀ fault, codec.encode layout row = .error fault ↔ layout.Refuses codec row fault) ∧
      (∀ table flaw, codec.encode layout row ≠ .error (.layoutLimit table flaw)) ∧
      ∀ record, codec.encode layout row = .ok record → layout.WritesBlock row record.value := by
  have sound := (Layout.stores_of_plan reachable validated planned).sound
  have settles : Outcome.Settles (codec.encode layout row) _ _ := Layout.settles_encode sound
  refine ⟨settles.ok, settles.error, fun table flaw limited => ?_, fun record encoded => ?_⟩
  · exact ((settles.error _).mp limited).not_layoutLimit table flaw rfl
  · exact Layout.writesBlock_of_encode sound encoded

/-- One player is written, and another is refused for the depth before the places are looked at. -/
theorem encode_refuses_first_player :
    Player.layout.Accepts {} Player.row ∧ Player.layout.WritesBlock Player.row Player.record.value ∧
      encode {} Player.layout Player.deepRow =
        .error (.invalidCell "Player" "depth" (.intRange 32768 16)) := by
  obtain ⟨accepted, -, -, placed⟩ := encode_refuses_first .standard Player.validate_declaration
    Player.plan_schema {} Player.row
  obtain ⟨-, refused, -, -⟩ := encode_refuses_first .standard Player.validate_declaration
    Player.plan_schema {} Player.deepRow
  refine ⟨accepted.mp ⟨_, Player.encode_row⟩, placed _ Player.encode_row, (refused _).mpr ?_⟩
  refine .fixed ?_ ?_ ⟨[⟨Player.aliveField, 0, 0, 1⟩], ⟨Player.depthField, 1, 1, 2⟩, [], rfl, ?_, ?_⟩
  · exact Layout.strangeName?_eq_none_iff.mp (by decide)
  · intro slot member
    obtain rfl := List.mem_singleton.mp member
    refine ⟨rfl, fun cell given => ?_⟩
    obtain rfl := Option.some.inj (given.symm.trans (show _ = some (Cell.uint 7) from rfl))
    exact .uint (by decide)
  · intro slot member cell given
    obtain rfl := List.mem_singleton.mp member
    cases given
  · have above : (2 : Int) ^ (16 - 1) ≤ (32768 : BitVec 256).toInt := by decide
    have misfit : Player.depthField.type.kind.Misfit (.int 32768)
        (.refused (.intRange 32768 16)) := .int (.inr above)
    have given : Player.deepRow.get? Player.depthField.name = some (.int 32768) := rfl
    exact Field.Unsuited.misfit given misfit

end CodecRules

end PackedTables
