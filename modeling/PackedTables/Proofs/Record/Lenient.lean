import PackedTables.Proofs.Record.Key
import PackedTables.Proofs.Record.Settled

/-!
# Lenient reading

A record that is read leniently is read strictly once its truth values are settled.  The row is the
same, and it is written to the settled record.
-/

namespace PackedTables

/-! ## Strict and lenient reading -/

namespace Stored

variable {stored : Stored} {codec : CodecRules}

theorem reads_settled_iff : stored.settled.Reads { codec with strictBool := true } ↔
    stored.Reads { codec with strictBool := false } := by
  rw [Reads, Reads, Kind.readStored_lenient]
  rfl

theorem Spelled.reads (spelled : stored.Spelled) (sound : stored.field.type.Sound)
    (codec : CodecRules) : stored.Reads codec :=
  sound.kind.readStored_of_spells spelled codec.strictBool

end Stored

namespace CodecRules

variable {codec : CodecRules} {layout : Layout} {row : Row} {record : Record}

theorem decode_of_spelled (codec : CodecRules) (sound : layout.Sound) {filling : Filling}
    (fits : filling.Fits layout) (spelled : ∀ stored ∈ filling.all, stored.Spelled) :
    codec.decode layout filling.record = .ok filling.row :=
  (decode_eq_ok_iff sound).mpr ⟨filling, fits, fun stored member =>
    (spelled stored member).reads (fits.type sound member) codec, rfl, rfl⟩

/-- What is read leniently is a row of spelled cells, once the truth values are settled. -/
theorem spelled_of_decode_lenient (sound : layout.Sound)
    (decoded : decode { codec with strictBool := false } layout record = .ok row) :
    ∃ filling : Filling, filling.Fits layout ∧ (∀ stored ∈ filling.all, stored.Spelled) ∧
      layout.dynamicSlots.map (layout.payloadLength record.value) =
        Stored.lengths filling.payloads ∧
      filling.record = layout.settled record ∧ filling.row = row := by
  obtain ⟨filling, fits, reads, rfl, rfl⟩ := (decode_eq_ok_iff sound).mp decoded
  have strictly : ∀ stored ∈ filling.settled.all,
      stored.Reads { codec with strictBool := true } := by
    rw [filling.all_settled]
    exact List.forall_mem_map.mpr fun stored member =>
      Stored.reads_settled_iff.mpr (reads stored member)
  exact ⟨filling.settled, fits.settled, fits.settled.spelled sound rfl strictly,
    (fits.payloadLength_eq sound).trans (Stored.lengths_settled _).symm,
    fits.record_settled sound, filling.row_settled⟩

/-- A record of spelled cells has all its truth values settled. -/
theorem settled_record_eq (sound : layout.Sound) {filling : Filling} (fits : filling.Fits layout)
    (spelled : ∀ stored ∈ filling.all, stored.Spelled) :
    layout.settled filling.record = filling.record := by
  have same : ∀ stored ∈ filling.all, stored.settled = stored := by
    intro stored member
    have type := fits.type sound member
    have again := type.kind.spells_settled (fun count fixed => fits.length_eq sound member fixed)
      (spelled stored member)
    rw [Stored.settled, type.kind.bytes_eq_of_spells again (spelled stored member)]
  obtain ⟨key, block, payloads⟩ := Filling.forall_all_iff.mp same
  have keep {held : List Stored} (each : ∀ stored ∈ held, stored.settled = stored) :
      held.map Stored.settled = held :=
    (List.map_congr_left each).trans (List.map_id held)
  rw [← fits.record_settled sound, Filling.settled, keep key, keep block, keep payloads]

/-- Whether a row is written depends on the lengths of its payloads only. -/
theorem encode_row_eq_ok_iff (sound : layout.Sound) {filling : Filling}
    (fits : filling.Fits layout) (spelled : ∀ stored ∈ filling.all, stored.Spelled)
    {written : Record} :
    codec.encode layout filling.row = .ok written ↔ written = filling.record ∧
      ∀ length ∈ Stored.lengths filling.payloads, length ≤ codec.payloadLimit := by
  constructor
  · intro encoded
    have short : ∀ stored ∈ filling.payloads, stored.part.length ≤ codec.payloadLimit := by
      intro stored member
      by_contra exceeds
      obtain ⟨_, -, -, refused⟩ :=
        encode_eq_error sound fits spelled ⟨stored, member, Nat.not_le.mp exceeds⟩
      rw [encoded] at refused
      cases refused
    have bounded : ∀ length ∈ Stored.lengths filling.payloads, length ≤ codec.payloadLimit :=
      List.forall_mem_map.mpr short
    rw [encode_row sound fits spelled bounded] at encoded
    exact ⟨(Except.ok.inj encoded).symm, bounded⟩
  · rintro ⟨rfl, short⟩
    exact encode_row sound fits spelled short

/-- Of the records that are read leniently, the strict ones have all truth values settled. -/
theorem decode_strict_eq_error_iff (sound : layout.Sound)
    (decoded : decode { codec with strictBool := false } layout record = .ok row) :
    (∃ fault, decode { codec with strictBool := true } layout record = .error fault) ↔
      layout.Loose record := by
  have strictly : (∃ other, decode { codec with strictBool := true } layout record = .ok other) ↔
      ¬layout.Loose record := by
    rw [← Layout.settled_eq_self_iff]
    constructor
    · rintro ⟨other, read⟩
      obtain ⟨filling, fits, spelled, rfl, -⟩ := spelled_of_decode sound rfl read
      exact settled_record_eq sound fits spelled
    · intro settled
      obtain ⟨filling, fits, spelled, -, same, -⟩ := spelled_of_decode_lenient sound decoded
      rw [← settled, ← same]
      exact ⟨filling.row, decode_of_spelled _ sound fits spelled⟩
  rw [← not_iff_not, ← strictly]
  cases decode { codec with strictBool := true } layout record <;> simp

/-! ## Planned layouts -/

variable {registry : Registry} {rules limits : SchemaRules} {declaration : TableDeclaration}
  {schema : Schema}

/-- Lenient reading agrees with strict reading and goes beyond it only in truth values.  A record
that is read leniently is refused strictly just when some byte of a truth value is above one.  With
all such bytes put down to one it is read strictly as the same row, and this is the record that the
row is written to, if it is written at all: no payload may be longer than the rules allow. -/
theorem decode_lenient (reachable : registry.Reachable)
    (validated : rules.validate registry declaration = .ok schema)
    (planned : Layout.plan limits schema = .ok layout) (codec : CodecRules) (record : Record) :
    (∀ row, decode { codec with strictBool := true } layout record = .ok row →
      decode { codec with strictBool := false } layout record = .ok row) ∧
    ∀ row, decode { codec with strictBool := false } layout record = .ok row →
      ((∃ fault, decode { codec with strictBool := true } layout record = .error fault) ↔
        layout.Loose record) ∧
      decode { codec with strictBool := true } layout (layout.settled record) = .ok row ∧
      ∀ writer : CodecRules, ∀ written, writer.encode layout row = .ok written ↔
        written = layout.settled record ∧ ∀ slot ∈ layout.dynamicSlots,
          layout.payloadLength record.value slot ≤ writer.payloadLimit := by
  have sound := (Layout.stores_of_plan reachable validated planned).sound
  refine ⟨fun row decoded => ?_, fun row decoded => ?_⟩
  · obtain ⟨filling, fits, spelled, rfl, rfl⟩ := spelled_of_decode sound rfl decoded
    exact decode_of_spelled _ sound fits spelled
  · obtain ⟨filling, fits, spelled, lengths, same, rfl⟩ := spelled_of_decode_lenient sound decoded
    have strictly := decode_of_spelled { codec with strictBool := true } sound fits spelled
    rw [same] at strictly
    refine ⟨decode_strict_eq_error_iff sound decoded, strictly, fun writer written => ?_⟩
    rw [encode_row_eq_ok_iff sound fits spelled, same, ← lengths, List.forall_mem_map]

end CodecRules

/-! ## A panel of lamps -/

namespace Panel

def declaration : TableDeclaration where
  name := "Panel"
  fields := [⟨"left", "bool"⟩, ⟨"live", "bool"⟩, ⟨"lamps", "bool[]"⟩]
  key := ["left"]

def leftField : Field := ⟨"left", .ofKind "bool" .bool⟩

def liveField : Field := ⟨"live", .ofKind "bool" .bool⟩

def lampsField : Field := ⟨"lamps", .ofKind "bool[]" (.array .bool none)⟩

def schema : Schema where
  name := "Panel"
  fields := [leftField, liveField, lampsField]
  key := ["left"]
  offchain := false

def layout : Layout where
  table := "Panel"
  keySlots := [⟨leftField, 0, 1⟩]
  fixedSlots := [⟨liveField, 0, 0, 1⟩]
  dynamicSlots := [⟨lampsField, 1, 0⟩]
  keyLength := 1
  staticLength := 1

theorem validate_declaration :
    SchemaRules.validate {} Registry.standard declaration = .ok schema :=
  rfl

theorem plan_schema : Layout.plan {} schema = .ok layout := rfl

def row : Row :=
  Row.ofList [("left", .bool true), ("live", .bool true),
    ("lamps", .array [.bool false, .bool true, .bool true])]

/-- Truth values above one in the key, in the block and in the payload. -/
def looseRecord : Record where
  key := [2]
  value := [3] ++ Lengths.pack [3] ++ [0, 1, 9]

def record : Record where
  key := [1]
  value := [1] ++ Lengths.pack [3] ++ [0, 1, 1]

theorem decode_looseRecord :
    CodecRules.decode { strictBool := false } layout looseRecord = .ok row := by
  decide +kernel

theorem settled_looseRecord : layout.settled looseRecord = record := by decide +kernel

end Panel

/-- A panel that is refused strictly, and the record that its lenient row is written to. -/
theorem CodecRules.decode_lenient_panel :
    (∃ fault, decode {} Panel.layout Panel.looseRecord = .error fault) ∧
      decode {} Panel.layout Panel.record = .ok Panel.row ∧
      encode {} Panel.layout Panel.row = .ok Panel.record := by
  obtain ⟨refused, read, written⟩ := (decode_lenient .standard Panel.validate_declaration
    Panel.plan_schema {} Panel.looseRecord).2 Panel.row Panel.decode_looseRecord
  rw [Panel.settled_looseRecord] at read
  refine ⟨refused.mpr (.inl ⟨0, 2, rfl, by decide +kernel, by decide⟩), read, ?_⟩
  exact (written {} _).mpr ⟨Panel.settled_looseRecord.symm, by decide +kernel⟩

end PackedTables
