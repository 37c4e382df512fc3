import PackedTables.Proofs.Record.Range
import PackedTables.Proofs.Record.Writing

/-!
# Cells that are refused

What a slot asks of the cell that a row gives it, and which fault it tells otherwise.  A key slot
asks for a cell first.  A payload is asked for the count of its elements, for the elements one by
one, and for its length.
-/

namespace PackedTables

/-! ## Cells of one field -/

namespace Kind

/-- How many bytes a cell of variable width takes. -/
def payloadLength : Kind → Cell → Nat
  | .bytes, .bytes stored => stored.length
  | .string, .string text => (Utf8.encode text).length
  | .array element _, .array items =>
      match element.width with
      | .fixed width => items.length * width
      | .varying => 0
  | _, _ => 0

theorem Sound.payloadLength_eq {kind : Kind} (sound : kind.Sound) (varying : kind.width = .varying)
    {cell : Cell} {bytes : Bytes} (spelled : kind.Spells cell bytes) :
    bytes.length = kind.payloadLength cell := by
  cases sound with
  | scalar scalar =>
      obtain ⟨width, fixed, -, -⟩ := scalar.width_eq
      cases fixed.symm.trans varying
  | bytes =>
      cases spelled
      rfl
  | string =>
      cases spelled
      rfl
  | @array element length scalar counted =>
      obtain ⟨width, fixed, -, -⟩ := scalar.width_eq
      cases spelled with
      | array items spelled counted =>
          have exact : ∀ part ∈ items.map (·.2), part.length = width := by
            intro part member
            obtain ⟨item, inItems, rfl⟩ := List.mem_map.mp member
            have sized := scalar.length_of_spells (spelled item inItems)
            exact (Width.fixed.inj (fixed.symm.trans sized)).symm
          rw [Bytes.length_flatten_of_exact exact, List.length_map, payloadLength, fixed,
            List.length_map]

end Kind

namespace Field

/-- A field that a row gives a cell of its kind, or none. -/
def Suited (row : Row) (field : Field) : Prop :=
  ∀ cell, row.get? field.name = some cell → field.type.kind.Takes cell

/-- A fault of the cell that a row gives a field of fixed width. -/
inductive Unsuited (table : String) (row : Row) (field : Field) : Fault → Prop
  | misfit {cell : Cell} {flaw : CellFault} : row.get? field.name = some cell →
      field.type.kind.Misfit cell flaw →
      Unsuited table row field (flaw.inField table field field.type.name)

/-- A field of the key that a row gives a cell of its kind. -/
def KeySuited (row : Row) (field : Field) : Prop :=
  (row.get? field.name).isSome = true ∧ field.Suited row

/-- A fault of a field of the key. -/
inductive KeyFault (table : String) (row : Row) (field : Field) : Fault → Prop
  | missing : row.get? field.name = none →
      KeyFault table row field (.missingKeyField table field.name)
  | unsuited {fault : Fault} : field.Unsuited table row fault → KeyFault table row field fault

/-- A fault of a cell that is to become a payload. -/
inductive PayloadFault (table : String) (field : Field) : Cell → Fault → Prop
  | form {cell : Cell} : field.type.kind.form ≠ cell.form →
      PayloadFault table field cell (.typeMismatch table field.name field.type.name cell.form)
  | count {element : Kind} {expected : Nat} {items : List Cell} :
      field.type.kind = .array element (some expected) → items.length ≠ expected →
      PayloadFault table field (.array items)
        (.invalidCell table field.name (.elementCount expected items.length))
  | element {element : Kind} {length : Option Nat} {items : List Cell} {flaw : CellFault} :
      field.type.kind = .array element length →
      (∀ count, length = some count → items.length = count) →
      Outcome.FirstFails element.Takes element.Misfit items flaw →
      PayloadFault table field (.array items)
        (flaw.inField table field (field.type.name ++ " element"))

/-- A dynamic field whose payload, if a row gives one, is of its kind and short enough. -/
def PayloadSuited (limit : Nat) (row : Row) (field : Field) : Prop :=
  ∀ cell, row.get? field.name = some cell →
    field.type.kind.Takes cell ∧ field.type.kind.payloadLength cell ≤ limit

/-- A fault of the payload that a row gives a dynamic field. -/
inductive PayloadUnsuited (table : String) (limit : Nat) (row : Row) (field : Field) : Fault → Prop
  | misfit {cell : Cell} {fault : Fault} : row.get? field.name = some cell →
      field.PayloadFault table cell fault → PayloadUnsuited table limit row field fault
  | long {cell : Cell} : row.get? field.name = some cell → field.type.kind.Takes cell →
      limit < field.type.kind.payloadLength cell →
      PayloadUnsuited table limit row field
        (.invalidCell table field.name
          (.payloadLimit (field.type.kind.payloadLength cell) limit))

variable {table : String} {row : Row} {field : Field}

open Outcome (Settles FirstFails)

theorem settles_write (scalar : field.type.kind.Scalar) (cell : Cell) :
    Settles (field.write table cell) (field.type.kind.Takes cell) fun fault =>
      ∃ flaw, field.type.kind.Misfit cell flaw ∧
        flaw.inField table field field.type.name = fault :=
  (scalar.settles_write cell).mapError _

theorem settles_writeItems {element : Kind} (scalar : element.Scalar) (items : List Cell) :
    Settles (field.writeItems table element items) (∀ item ∈ items, element.Takes item) fun fault =>
      ∃ flaw, FirstFails element.Takes element.Misfit items flaw ∧
        flaw.inField table field (field.type.name ++ " element") = fault := by
  have each : ∀ item ∈ items, Settles (writeItem table field element item) (element.Takes item)
      fun fault => ∃ flaw, element.Misfit item flaw ∧
        flaw.inField table field (field.type.name ++ " element") = fault :=
    fun item _ => (scalar.settles_write item).mapError _
  refine ((Settles.mapM each).map List.flatten).congr Iff.rfl fun fault => ?_
  constructor
  · rintro ⟨before, item, after, split, passed, flaw, misfit, same⟩
    exact ⟨flaw, ⟨before, item, after, split, passed, misfit⟩, same⟩
  · rintro ⟨flaw, ⟨before, item, after, split, passed, misfit⟩, same⟩
    exact ⟨before, item, after, split, passed, flaw, misfit, same⟩

/-- A cell of another form is no payload of the field. -/
theorem payloadFault_form_iff {cell : Cell} {fault : Fault}
    (different : field.type.kind.form ≠ cell.form) :
    field.PayloadFault table cell fault ↔
      fault = .typeMismatch table field.name field.type.name cell.form := by
  constructor
  · intro failed
    cases failed with
    | form => rfl
    | count kind => exact absurd (congrArg Kind.form kind) different
    | element kind => exact absurd (congrArg Kind.form kind) different
  · rintro rfl
    exact .form different

theorem payloadFault_array_iff {element : Kind} {length : Option Nat}
    (kind : field.type.kind = .array element length) {items : List Cell} {fault : Fault} :
    field.PayloadFault table (.array items) fault ↔
      (∃ expected, length = some expected ∧ items.length ≠ expected ∧
        fault = .invalidCell table field.name (.elementCount expected items.length)) ∨
      (∀ count, length = some count → items.length = count) ∧
        ∃ flaw, FirstFails element.Takes element.Misfit items flaw ∧
          flaw.inField table field (field.type.name ++ " element") = fault := by
  constructor
  · intro failed
    cases failed with
    | form different => exact absurd (congrArg Kind.form kind) different
    | count pinned unequal =>
        obtain ⟨-, rfl⟩ := Kind.array.inj (kind.symm.trans pinned)
        exact .inl ⟨_, rfl, unequal, rfl⟩
    | element same counted first =>
        obtain ⟨rfl, rfl⟩ := Kind.array.inj (kind.symm.trans same)
        exact .inr ⟨counted, _, first, rfl⟩
  · rintro (⟨expected, rfl, unequal, rfl⟩ | ⟨counted, flaw, first, rfl⟩)
    · exact .count kind unequal
    · exact .element kind counted first

theorem settles_writePayload (sound : field.type.kind.Sound)
    (varying : field.type.kind.width = .varying) (cell : Cell) :
    Settles (field.writePayload table cell) (field.type.kind.Takes cell)
      (field.PayloadFault table cell) := by
  by_cases same : field.type.kind.form = cell.form
  · have plain (bytes : Bytes) (takes : field.type.kind.Takes cell)
        (unarrayed : ∀ element length, field.type.kind ≠ .array element length) :
        Settles (.ok bytes) (field.type.kind.Takes cell) (field.PayloadFault table cell) := by
      refine (Settles.of_ok bytes).congr (iff_of_true trivial takes) fun fault => iff_of_false id ?_
      intro failed
      cases failed with
      | form different => exact different same
      | count kind => exact unarrayed _ _ kind
      | element kind => exact unarrayed _ _ kind
    cases kind : field.type.kind with
    | bytes =>
        rw [kind] at same plain
        cases cell with
        | bytes stored =>
            simp only [writePayload, kind]
            exact plain stored (.bytes stored) fun element length => Kind.noConfusion
        | _ => simp [Kind.form, Cell.form] at same
    | string =>
        rw [kind] at same plain
        cases cell with
        | string text =>
            simp only [writePayload, kind]
            exact plain _ (.string text) fun element length => Kind.noConfusion
        | _ => simp [Kind.form, Cell.form] at same
    | array element length =>
        rw [kind] at same sound
        cases sound with
        | scalar scalar => cases scalar
        | array scalar =>
            cases cell with
            | array items =>
                have written : Settles (field.writeItems table element items) _ _ :=
                  settles_writeItems scalar items
                cases length with
                | none =>
                    simp only [writePayload, kind]
                    refine written.congr ?_ fun fault => ?_
                    · simp [Kind.takes_array_iff]
                    · simp [payloadFault_array_iff kind]
                | some expected =>
                    simp only [writePayload, kind]
                    refine (written.guard (items.length = expected) _).congr ?_ fun fault => ?_
                    · simp [Kind.takes_array_iff]
                    · simp [payloadFault_array_iff kind]
            | _ => simp [Kind.form, Cell.form] at same
    | _ => simp [kind, Kind.width] at varying
  · have mismatch : field.writePayload table cell =
        .error (.typeMismatch table field.name field.type.name cell.form) := by
      unfold writePayload
      generalize field.type.kind = kind at same
      cases kind with
      | array element length => cases length <;> cases cell <;> first | rfl | exact absurd rfl same
      | _ => cases cell <;> first | rfl | exact absurd rfl same
    rw [mismatch]
    refine (Settles.of_error _).congr (iff_of_false id fun takes => same takes.form_eq) ?_
    exact fun fault => (payloadFault_form_iff same).symm

end Field

/-! ## Slots -/

namespace Layout

open Outcome (Settles FirstFails)

variable {layout : Layout} {row : Row}

theorem settles_writeKeySlot {slot : KeySlot} (scalar : slot.field.type.kind.Scalar) :
    Settles (layout.writeKeySlot row slot) (slot.field.KeySuited row)
      (slot.field.KeyFault layout.table row) := by
  unfold writeKeySlot
  cases found : row.get? slot.field.name with
  | none =>
      refine (Settles.of_error _).congr (by simp [Field.KeySuited, found]) fun fault => ?_
      constructor
      · rintro rfl
        exact .missing found
      · intro failed
        cases failed with
        | missing => rfl
        | unsuited unsuited =>
            cases unsuited with
            | misfit given => cases found.symm.trans given
  | some cell =>
      refine (Field.settles_write scalar cell).congr
        (by simp [Field.KeySuited, Field.Suited, found]) fun fault => ?_
      constructor
      · rintro ⟨flaw, misfit, rfl⟩
        exact .unsuited (.misfit found misfit)
      · intro failed
        cases failed with
        | missing missing => cases found.symm.trans missing
        | unsuited unsuited =>
            cases unsuited with
            | misfit given misfit =>
                obtain rfl := Option.some.inj (found.symm.trans given)
                exact ⟨_, misfit, rfl⟩

theorem settles_writeFixedSlot {slot : FixedSlot} (scalar : slot.field.type.kind.Scalar) :
    Settles (layout.writeFixedSlot row slot) (slot.field.Suited row)
      (slot.field.Unsuited layout.table row) := by
  unfold writeFixedSlot
  cases found : row.get? slot.field.name with
  | none =>
      refine (Settles.of_ok _).congr (by simp [Field.Suited, found]) fun fault => ?_
      refine iff_of_false id fun unsuited => ?_
      cases unsuited with
      | misfit given => cases found.symm.trans given
  | some cell =>
      refine (Field.settles_write scalar cell).congr (by simp [Field.Suited, found]) fun fault => ?_
      constructor
      · rintro ⟨flaw, misfit, rfl⟩
        exact .misfit found misfit
      · intro unsuited
        cases unsuited with
        | misfit given misfit =>
            obtain rfl := Option.some.inj (found.symm.trans given)
            exact ⟨_, misfit, rfl⟩

end Layout

namespace CodecRules

open Outcome (Settles FirstFails)

variable {rules : CodecRules} {layout : Layout} {row : Row}

theorem settles_checkPayload (rules : CodecRules) (table : String) (field : Field)
    (payload : Bytes) :
    Settles (rules.checkPayload table field payload) (payload.length ≤ rules.payloadLimit) fun fault =>
      rules.payloadLimit < payload.length ∧
        fault = .invalidCell table field.name
          (.payloadLimit payload.length rules.payloadLimit) := by
  unfold checkPayload
  by_cases long : rules.payloadLimit < payload.length
  · rw [if_pos long]
    exact (Settles.of_error _).congr (iff_of_false id (Nat.not_le.mpr long)) (by simp [long])
  · rw [if_neg long]
    exact (Settles.of_ok _).congr (iff_of_true trivial (Nat.not_lt.mp long)) (by simp [long])

theorem settles_writePayload (sound : layout.Sound) {slot : DynamicSlot}
    (member : slot ∈ layout.dynamicSlots) :
    Settles (rules.writePayload layout row slot) (slot.field.PayloadSuited rules.payloadLimit row)
      (slot.field.PayloadUnsuited layout.table rules.payloadLimit row) := by
  have type := sound.dynamicType member
  have varying := (Field.width?_eq_none_iff type).mp (sound.varying slot member)
  unfold writePayload Layout.writeDynamicSlot
  cases found : row.get? slot.field.name with
  | none =>
      have empty : slot.field.type.standard = [] := by
        rw [type.standard_eq, varying, FieldType.standardOf]
      simp only [Outcome.ok_bind, empty]
      refine (rules.settles_checkPayload layout.table slot.field []).congr ?_ fun fault => ?_
      · simp [Field.PayloadSuited, found]
      · refine iff_of_false (by simp) fun unsuited => ?_
        cases unsuited with
        | misfit given => cases found.symm.trans given
        | long given => cases found.symm.trans given
  | some cell =>
      have written : Settles (slot.field.writePayload layout.table cell) _ _ :=
        Field.settles_writePayload type.kind varying cell
      have checked : ∀ payload, slot.field.writePayload layout.table cell = .ok payload →
          Settles (rules.checkPayload layout.table slot.field payload)
            (slot.field.type.kind.payloadLength cell ≤ rules.payloadLimit) fun fault =>
              rules.payloadLimit < slot.field.type.kind.payloadLength cell ∧
                fault = .invalidCell layout.table slot.field.name
                  (.payloadLimit (slot.field.type.kind.payloadLength cell) rules.payloadLimit) := by
        intro payload done
        have spelled := (Field.writePayload_eq_ok_iff type.kind varying).mp done
        rw [← type.kind.payloadLength_eq varying spelled]
        exact rules.settles_checkPayload layout.table slot.field payload
      refine (written.bind checked).congr (by simp [Field.PayloadSuited, found]) fun fault => ?_
      constructor
      · rintro (failed | ⟨takes, long, rfl⟩)
        · exact .misfit found failed
        · exact .long found takes long
      · intro unsuited
        cases unsuited with
        | misfit given failed =>
            obtain rfl := Option.some.inj (found.symm.trans given)
            exact .inl failed
        | long given takes long =>
            obtain rfl := Option.some.inj (found.symm.trans given)
            exact .inr ⟨takes, long, rfl⟩

theorem joinPayloads_eq_ok {table : String} {payloads : List Bytes}
    (few : payloads.length ≤ Limits.maxDynamicFields)
    (short : ∀ payload ∈ payloads, payload.length ≤ rules.payloadLimit) :
    joinPayloads table payloads =
      .ok (Lengths.pack (payloads.map List.length) ++ payloads.flatten) := by
  have bounded : ∀ length ∈ payloads.map List.length, length ≤ Limits.maxDynamicLength := by
    intro length member
    obtain ⟨payload, inPayloads, rfl⟩ := List.mem_map.mp member
    exact Nat.le_trans (short payload inPayloads) (Nat.min_le_right _ _)
  rw [joinPayloads, Lengths.toWord_eq_ok (by rwa [List.length_map]) bounded]

/-- The payloads of a layout always fit their header. -/
theorem settles_writeTail (sound : layout.Sound) :
    Settles (rules.writeTail layout row)
      (∀ slot ∈ layout.dynamicSlots, slot.field.PayloadSuited rules.payloadLimit row)
      (FirstFails (fun slot => slot.field.PayloadSuited rules.payloadLimit row)
        (fun slot => slot.field.PayloadUnsuited layout.table rules.payloadLimit row)
        layout.dynamicSlots) := by
  have written : Settles (rules.writePayloads layout row) _ _ :=
    Settles.mapM fun _ member => settles_writePayload sound member
  unfold writeTail
  by_cases none : layout.dynamicSlots = []
  · have undynamic : layout.hasDynamic = false := by simp [Layout.hasDynamic, none]
    rw [undynamic, if_neg (by decide), none]
    exact (Settles.of_ok _).congr (by simp) (by simp [FirstFails])
  · have dynamic : layout.hasDynamic = true := by simp [Layout.hasDynamic, none]
    have joins : ∀ payloads, rules.writePayloads layout row = .ok payloads →
        Settles (joinPayloads layout.table payloads) True fun _ => False := by
      intro payloads done
      obtain ⟨held, fields, all, rfl⟩ := (writePayloads_eq_ok_iff sound).mp done
      have few := (sound.few_lengths fields).2
      rw [joinPayloads_eq_ok (by simpa [Stored.lengths] using few)]
      · exact .of_ok _
      · intro payload member
        obtain ⟨stored, inHeld, rfl⟩ := List.mem_map.mp member
        exact (all stored inHeld).2
    rw [dynamic, if_pos rfl]
    exact (written.bind joins).congr (by simp) (by simp)

end CodecRules

end PackedTables
