import PackedTables.Proofs.Record.Places
import PackedTables.Proofs.Record.Truth

/-!
# Settled records

A record with every byte above one that stands for a truth value put down to one.  Which bytes these
are follows from the layout and the header, and settling a record is to settle each part of its
filling.
-/

namespace PackedTables

/-! ## Bytes by their places -/

/-- Whether a place lies in a stretch of truth values. -/
def Span.truthAt (spans : List Span) (place : Nat) : Bool :=
  spans.any fun span => span.field.type.kind.isTruth &&
    decide (span.offset ≤ place ∧ place < span.offset + span.width)

namespace Bytes

/-- Bytes as they are written, where some places stand for truth values. -/
def settledWhere (truth : Nat → Bool) (bytes : Bytes) : Bytes :=
  bytes.mapIdx fun place byte => if truth place then settle byte else byte

variable {truth truth' : Nat → Bool}

theorem getElem?_settledWhere (truth : Nat → Bool) (bytes : Bytes) (place : Nat) :
    (settledWhere truth bytes)[place]? =
      bytes[place]?.map fun byte => if truth place then settle byte else byte :=
  List.getElem?_mapIdx

theorem settledWhere_append (truth : Nat → Bool) (front back : Bytes) :
    settledWhere truth (front ++ back) = settledWhere truth front ++
      settledWhere (fun place => truth (front.length + place)) back := by
  rw [settledWhere, List.mapIdx_append]
  simp only [settledWhere, Nat.add_comm]

theorem settledWhere_congr {bytes : Bytes}
    (same : ∀ place, place < bytes.length → truth place = truth' place) :
    settledWhere truth bytes = settledWhere truth' bytes := by
  apply List.ext_getElem?
  intro place
  rw [getElem?_settledWhere, getElem?_settledWhere]
  cases found : bytes[place]? with
  | none => rfl
  | some byte =>
      have inside := (List.getElem?_eq_some_iff.mp found).1
      rw [Option.map_some, Option.map_some, same place inside]

theorem settledWhere_const (truth : Bool) (bytes : Bytes) :
    settledWhere (fun _ => truth) bytes = if truth then bytes.map settle else bytes := by
  apply List.ext_getElem?
  intro place
  rw [getElem?_settledWhere]
  cases truth with
  | true => exact List.getElem?_map.symm
  | false => exact Option.map_id'

theorem settledWhere_eq_self_iff {bytes : Bytes} : settledWhere truth bytes = bytes ↔
    ¬∃ place byte, bytes[place]? = some byte ∧ truth place = true ∧ 1 < byte := by
  constructor
  · rintro same ⟨place, byte, found, here, above⟩
    have kept := congrArg (·[place]?) same
    simp only [getElem?_settledWhere, found, Option.map_some, here] at kept
    exact settle_eq_self_iff.mp (Option.some.inj kept) above
  · intro none
    apply List.ext_getElem?
    intro place
    rw [getElem?_settledWhere]
    cases found : bytes[place]? with
    | none => rfl
    | some byte =>
        rw [Option.map_some]
        split
        · rename_i here
          rw [settle_eq_self_iff.mpr fun above => none ⟨place, byte, found, here, above⟩]
        · rfl

end Bytes

namespace Span

theorem truthAt_append (front back : List Span) (place : Nat) :
    truthAt (front ++ back) place = (truthAt front place || truthAt back place) :=
  List.any_append

end Span

namespace Stored

variable {held : List Stored} {start place : Nat}

/-- A slot with its bytes as they are written. -/
def settled (stored : Stored) : Stored :=
  { stored with part := stored.field.type.kind.settled stored.part }

theorem truthAt_spans_cons (start : Nat) (stored : Stored) (rest : List Stored) (place : Nat) :
    Span.truthAt (spans start (stored :: rest)) place =
      (stored.field.type.kind.isTruth &&
          decide (start ≤ place ∧ place < start + stored.part.length) ||
        Span.truthAt (spans (start + stored.part.length) rest) place) :=
  rfl

theorem truthAt_spans_eq_false
    (outside : place < start ∨ start + (joined held).length ≤ place) :
    Span.truthAt (spans start held) place = false := by
  induction held generalizing start with
  | nil => rfl
  | cons stored rest ih =>
      rw [joined_cons, List.length_append] at outside
      have apart : ¬(start ≤ place ∧ place < start + stored.part.length) := by omega
      rw [truthAt_spans_cons, decide_eq_false apart, Bool.and_false, Bool.false_or]
      exact ih (by omega)

/-- What several slots hold is settled slot by slot. -/
theorem settledWhere_joined (start : Nat) (held : List Stored) :
    Bytes.settledWhere (fun place => Span.truthAt (spans start held) (start + place))
      (joined held) = joined (held.map settled) := by
  induction held generalizing start with
  | nil => rfl
  | cons stored rest ih =>
      have here : ∀ place, place < stored.part.length →
          Span.truthAt (spans start (stored :: rest)) (start + place) =
            stored.field.type.kind.isTruth := by
        intro place inside
        have covered : start ≤ start + place ∧ start + place < start + stored.part.length := by
          omega
        rw [truthAt_spans_cons, decide_eq_true covered, Bool.and_true,
          truthAt_spans_eq_false (.inl (by omega)), Bool.or_false]
      have there : ∀ place, place < (joined rest).length →
          Span.truthAt (spans start (stored :: rest)) (start + (stored.part.length + place)) =
            Span.truthAt (spans (start + stored.part.length) rest)
              (start + stored.part.length + place) := by
        intro place inside
        have apart : ¬(start ≤ start + (stored.part.length + place) ∧
            start + (stored.part.length + place) < start + stored.part.length) := by omega
        rw [truthAt_spans_cons, decide_eq_false apart, Bool.and_false, Bool.false_or, Nat.add_assoc]
      rw [joined_cons, Bytes.settledWhere_append, Bytes.settledWhere_congr here,
        Bytes.settledWhere_const, Bytes.settledWhere_congr there, ih, List.map_cons, joined_cons]
      rfl

theorem lengths_settled (held : List Stored) : lengths (held.map settled) = lengths held := by
  rw [lengths, lengths, List.map_map]
  exact List.map_congr_left fun stored _ => Kind.length_settled _ _

theorem fields_settled (held : List Stored) :
    (held.map settled).map (·.field) = held.map (·.field) := by
  rw [List.map_map]
  rfl

theorem Exact.settled {stored : Stored} (exact : stored.Exact) : stored.settled.Exact := by
  rw [Exact, Stored.settled, Kind.length_settled]
  exact exact

end Stored

/-! ## Records by their places -/

namespace Layout

/-- The stretches of a value, those of the payloads where its header leads to. -/
def valueSpans (layout : Layout) (value : Bytes) : List Span :=
  layout.fixedSpans ++ layout.payloadSpans value

/-- A record with the bytes of its truth values as they are written. -/
def settled (layout : Layout) (record : Record) : Record where
  key := Bytes.settledWhere (Span.truthAt layout.keySpans) record.key
  value := Bytes.settledWhere (Span.truthAt (layout.valueSpans record.value)) record.value

/-- Some byte that stands for a truth value is above one. -/
def Loose (layout : Layout) (record : Record) : Prop :=
  (∃ place byte, record.key[place]? = some byte ∧
      Span.truthAt layout.keySpans place = true ∧ 1 < byte) ∨
    ∃ place byte, record.value[place]? = some byte ∧
      Span.truthAt (layout.valueSpans record.value) place = true ∧ 1 < byte

theorem settled_eq_self_iff {layout : Layout} {record : Record} :
    layout.settled record = record ↔ ¬layout.Loose record := by
  have parts : layout.settled record = record ↔
      (layout.settled record).key = record.key ∧ (layout.settled record).value = record.value := by
    constructor
    · exact fun same => ⟨congrArg Record.key same, congrArg Record.value same⟩
    · exact fun same => congrArg₂ Record.mk same.1 same.2
  rw [parts, settled, Bytes.settledWhere_eq_self_iff, Bytes.settledWhere_eq_self_iff, ← not_or]
  rfl

end Layout

namespace Filling

variable {layout : Layout} {filling : Filling}

def settled (filling : Filling) : Filling where
  key := filling.key.map Stored.settled
  block := filling.block.map Stored.settled
  payloads := filling.payloads.map Stored.settled

theorem all_settled (filling : Filling) : filling.settled.all = filling.all.map Stored.settled := by
  rw [all, all, List.map_append, List.map_append]
  rfl

theorem row_settled (filling : Filling) : filling.settled.row = filling.row := by
  rw [row, row, all_settled, List.map_map]
  rfl

theorem Fits.settled (fits : filling.Fits layout) : filling.settled.Fits layout where
  key := (Stored.fields_settled filling.key).trans fits.key
  block := (Stored.fields_settled filling.block).trans fits.block
  payloads := (Stored.fields_settled filling.payloads).trans fits.payloads
  keyExact := List.forall_mem_map.mpr fun stored member => (fits.keyExact stored member).settled
  blockExact := List.forall_mem_map.mpr fun stored member => (fits.blockExact stored member).settled
  bounded := (Stored.lengths_settled filling.payloads).symm ▸ fits.bounded

section Record

variable (fits : filling.Fits layout) (sound : layout.Sound)
include fits sound

theorem Fits.key_settled :
    Bytes.settledWhere (Span.truthAt layout.keySpans) (Stored.joined filling.key) =
      Stored.joined (filling.key.map Stored.settled) := by
  rw [fits.keySpans_eq sound, ← Stored.settledWhere_joined 0]
  exact Bytes.settledWhere_congr fun place _ => by rw [Nat.zero_add]

/-- A place of a value lies in the block, in the header or in the payloads. -/
theorem Fits.truthAt_valueSpans (place : Nat) :
    Span.truthAt (layout.valueSpans filling.record.value) place =
      (Span.truthAt (Stored.spans 0 filling.block) place ||
        Span.truthAt (Stored.spans layout.payloadStart filling.payloads) place) := by
  rw [Layout.valueSpans, Span.truthAt_append, fits.fixedSpans_eq sound, fits.payloadSpans_eq sound]

theorem Fits.block_settled :
    Bytes.settledWhere (Span.truthAt (layout.valueSpans filling.record.value))
        (Stored.joined filling.block) =
      Stored.joined (filling.block.map Stored.settled) := by
  rw [← Stored.settledWhere_joined 0]
  refine Bytes.settledWhere_congr fun place inside => ?_
  rw [sound.length_block fits.block fits.blockExact] at inside
  have before : place < layout.payloadStart := Nat.lt_of_lt_of_le inside (Nat.le_add_right _ _)
  rw [fits.truthAt_valueSpans sound, Stored.truthAt_spans_eq_false (.inl before), Bool.or_false,
    Nat.zero_add]

theorem Fits.tail_settled :
    Bytes.settledWhere (fun place => Span.truthAt (layout.valueSpans filling.record.value)
        (layout.staticLength + place)) (Stored.tail filling.payloads) =
      Stored.tail (filling.payloads.map Stored.settled) := by
  by_cases none : layout.dynamicSlots = []
  · rw [fits.payloads_eq_nil none]
    rfl
  · have behind (place : Nat) : Span.truthAt (Stored.spans 0 filling.block)
        (layout.staticLength + place) = false := by
      refine Stored.truthAt_spans_eq_false (.inr ?_)
      rw [sound.length_block fits.block fits.blockExact, Nat.zero_add]
      exact Nat.le_add_right _ _
    have header : ∀ place, place < (Lengths.pack (Stored.lengths filling.payloads)).length →
        Span.truthAt (layout.valueSpans filling.record.value) (layout.staticLength + place) =
          false := by
      intro place inside
      rw [Lengths.length_pack] at inside
      have before : layout.staticLength + place < layout.payloadStart :=
        Nat.add_lt_add_left inside _
      rw [fits.truthAt_valueSpans sound, behind, Stored.truthAt_spans_eq_false (.inl before),
        Bool.or_false]
    have payload : ∀ place, place < (Stored.joined filling.payloads).length →
        Span.truthAt (layout.valueSpans filling.record.value) (layout.staticLength +
            ((Lengths.pack (Stored.lengths filling.payloads)).length + place)) =
          Span.truthAt (Stored.spans layout.payloadStart filling.payloads)
            (layout.payloadStart + place) := by
      intro place _
      rw [fits.truthAt_valueSpans sound, behind, Bool.false_or, Lengths.length_pack,
        Layout.payloadStart, Nat.add_assoc]
    have fields := (Stored.fields_settled filling.payloads).trans fits.payloads
    rw [Stored.tail_eq none fits.payloads, Stored.tail_eq none fields, Stored.lengths_settled,
      Bytes.settledWhere_append, Bytes.settledWhere_congr header, Bytes.settledWhere_const,
      if_neg (by decide), Bytes.settledWhere_congr payload, Stored.settledWhere_joined]

/-- The record of the settled parts is the record with its truth values settled. -/
theorem Fits.record_settled : filling.settled.record = layout.settled filling.record := by
  have placed := sound.length_block fits.block fits.blockExact
  have value : Bytes.settledWhere (Span.truthAt (layout.valueSpans filling.record.value))
      filling.record.value = filling.settled.record.value := by
    have parts := Bytes.settledWhere_append
      (Span.truthAt (layout.valueSpans filling.record.value)) (Stored.joined filling.block)
      (Stored.tail filling.payloads)
    rw [fits.block_settled sound, placed, fits.tail_settled sound] at parts
    exact parts
  exact congrArg₂ Record.mk (fits.key_settled sound).symm value.symm

end Record

end Filling

end PackedTables
