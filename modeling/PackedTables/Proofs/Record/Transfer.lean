import PackedTables.Proofs.Layout.Shape
import PackedTables.Proofs.Record.Refusal
import PackedTables.Proofs.Record.Shape

/-!
# Records under layouts of one shape

Two layouts with the same shapes in the same slots cut a record alike.  So the filling of one layout
moves to the other, part for part, and the cells that are read differ at most in which of them the
kinds admit.
-/

namespace PackedTables

/-! ## Moving parts -/

/-- What stays of a slot when its field is exchanged for one that looks alike. -/
def Stored.Moved {viewType : Type} (view : Field → viewType) (stored other : Stored) : Prop :=
  view other.field = view stored.field ∧ other.part = stored.part ∧ other.cell = stored.cell

theorem Stored.exists_moved {viewType : Type} {view : Field → viewType} {held : List Stored}
    {fields : List Field} (agrees : (held.map (·.field)).map view = fields.map view) :
    ∃ moved : List Stored, moved.map (·.field) = fields ∧
      moved.map (·.part) = held.map (·.part) ∧ moved.map (·.cell) = held.map (·.cell) ∧
      ∀ other ∈ moved, ∃ stored ∈ held, stored.Moved view other := by
  induction held generalizing fields with
  | nil =>
      obtain rfl := List.map_eq_nil_iff.mp agrees.symm
      exact ⟨[], rfl, rfl, rfl, by simp⟩
  | cons stored held ih =>
      obtain ⟨field, others, rfl, here, there⟩ := List.map_eq_cons_iff.mp agrees.symm
      obtain ⟨moved, rfl, parts, cells, each⟩ := ih there.symm
      refine ⟨⟨field, stored.part, stored.cell⟩ :: moved, rfl, ?_, ?_, ?_⟩
      · rw [List.map_cons, parts, List.map_cons]
      · rw [List.map_cons, cells, List.map_cons]
      · refine List.forall_mem_cons.mpr ⟨⟨stored, List.mem_cons_self, here, rfl, rfl⟩, ?_⟩
        intro other member
        obtain ⟨origin, inHeld, same⟩ := each other member
        exact ⟨origin, List.mem_cons_of_mem _ inHeld, same⟩

theorem Stored.Moved.exact {viewType : Type} {view : Field → viewType} {stored other : Stored}
    (moved : stored.Moved view other)
    (shaped : ∀ field field' : Field, view field' = view field → field'.shape = field.shape)
    (sound : stored.field.type.Sound) (sound' : other.field.type.Sound) (exact : stored.Exact) :
    other.Exact := by
  rw [Stored.Exact, Field.width?_eq_shape sound', shaped _ _ moved.1, ← Field.width?_eq_shape sound,
    moved.2.1]
  exact exact

namespace Filling

variable {first second : Layout} {filling : Filling} {viewType : Type} {view : Field → viewType}

theorem Fits.transfer (fits : filling.Fits first) (sound : first.Sound) (sound' : second.Sound)
    (agrees : first.Agrees view second)
    (shaped : ∀ field field' : Field, view field' = view field → field'.shape = field.shape) :
    ∃ other : Filling, other.Fits second ∧ other.record = filling.record ∧
      other.all.map (·.cell) = filling.all.map (·.cell) ∧
      ∀ stored' ∈ other.all, ∃ stored ∈ filling.all, stored.Moved view stored' := by
  have keyAgrees := (congrArg (List.map view) fits.key).trans agrees.key
  have blockAgrees := (congrArg (List.map view) fits.block).trans agrees.block
  have payloadAgrees := (congrArg (List.map view) fits.payloads).trans agrees.payloads
  obtain ⟨key, keyFields, keyParts, keyCells, keyMoved⟩ := Stored.exists_moved keyAgrees
  obtain ⟨block, blockFields, blockParts, blockCells, blockMoved⟩ := Stored.exists_moved blockAgrees
  obtain ⟨payloads, payloadFields, payloadParts, payloadCells, payloadMoved⟩ :=
    Stored.exists_moved payloadAgrees
  have inKey : ∀ stored ∈ filling.key, stored ∈ filling.all := fun stored member =>
    List.mem_append_left _ (List.mem_append_left _ member)
  have inBlock : ∀ stored ∈ filling.block, stored ∈ filling.all := fun stored member =>
    List.mem_append_left _ (List.mem_append_right _ member)
  have keyTypes : ∀ stored ∈ key, stored.field.type.Sound := fun stored member =>
    sound'.keyTypes _ (keyFields ▸ List.mem_map_of_mem member)
  have blockTypes : ∀ stored ∈ block, stored.field.type.Sound := fun stored member =>
    sound'.blockTypes _ (blockFields ▸ List.mem_map_of_mem member)
  refine ⟨⟨key, block, payloads⟩, ⟨keyFields, blockFields, payloadFields, ?_, ?_, ?_⟩, ?_, ?_, ?_⟩
  · intro stored' member
    obtain ⟨stored, held, moved⟩ := keyMoved stored' member
    exact moved.exact shaped (fits.type sound (inKey stored held)) (keyTypes stored' member)
      (fits.keyExact stored held)
  · intro stored' member
    obtain ⟨stored, held, moved⟩ := blockMoved stored' member
    exact moved.exact shaped (fits.type sound (inBlock stored held)) (blockTypes stored' member)
      (fits.blockExact stored held)
  · change ∀ length ∈ Stored.lengths payloads, _
    rw [Stored.lengths_eq_of_parts payloadParts]
    exact fits.bounded
  · rw [record, record, Stored.joined_eq_of_parts keyParts, Stored.joined_eq_of_parts blockParts,
      Stored.tail_eq_of_parts payloadParts]
  · simp only [all, List.map_append, keyCells, blockCells, payloadCells]
  · refine forall_all_iff.mpr ⟨fun stored' member => ?_, fun stored' member => ?_,
      fun stored' member => ?_⟩
    · obtain ⟨stored, held, moved⟩ := keyMoved stored' member
      exact ⟨stored, inKey stored held, moved⟩
    · obtain ⟨stored, held, moved⟩ := blockMoved stored' member
      exact ⟨stored, inBlock stored held, moved⟩
    · obtain ⟨stored, held, moved⟩ := payloadMoved stored' member
      exact ⟨stored, List.mem_append_right _ held, moved⟩

end Filling

/-! ## Reading alike -/

/-- Faults of an enum out of its range, or of an array of another count than its type says. -/
def Layout.BoundFault (layout : Layout) (fault : Fault) : Prop :=
  ∃ field ∈ layout.fields, ∃ cause : ByteFlaw, cause.isBound = true ∧
    fault = .malformedRecord layout.table (.inField field.name cause)

/-- What one record is read as under each of two layouts, up to names, ranges and counts. -/
structure Layout.ReadAlike (first second : Layout) (outcome outcome' : Except Fault Row) :
    Prop where
  cells : ∀ row other, outcome = .ok row → outcome' = .ok other →
    first.fields.map (fun field => row.get? field.name) =
      second.fields.map fun field => other.get? field.name
  refused : ∀ row fault, outcome = .ok row → outcome' = .error fault → second.BoundFault fault
  refused' : ∀ fault row, outcome = .error fault → outcome' = .ok row → first.BoundFault fault
  accepted : first.fields.map Field.bounds = second.fields.map Field.bounds →
    outcome.isOk = outcome'.isOk
  same : first.fields.map Field.bounds = second.fields.map Field.bounds →
    first.fields.map (·.name) = second.fields.map (·.name) →
    outcome.toOption = outcome'.toOption

namespace CodecRules

variable {codec : CodecRules} {first second : Layout} {record : Record} {row : Row}

/-- The cell of a slot, as its shape reads it. -/
def shapeCell? (codec : CodecRules) (slot : Field × Bytes) : Option Cell :=
  (slot.1.shape.readStored codec.strictBool slot.2).toOption

theorem readStored_shape (sound : first.Sound) {filling : Filling} (fits : filling.Fits first)
    {stored : Stored} (member : stored ∈ filling.all) (reads : stored.Reads codec) :
    stored.field.shape.readStored codec.strictBool stored.part = .ok stored.cell :=
  (((fits.type sound member).kind.readStored_eq_ok_iff_shape
    fun _ fixed => fits.length_eq sound member fixed).mp reads).1

/-- What is read under two layouts of one shape is the same, slot by slot. -/
theorem cells_eq_of_decode (sound : first.Sound) (sound' : second.Sound)
    (agrees : first.Agrees Field.shape second) {other : Row}
    (read : codec.decode first record = .ok row) (read' : codec.decode second record = .ok other) :
    first.fields.map (fun field => row.get? field.name) =
      second.fields.map fun field => other.get? field.name := by
  obtain ⟨filling, fits, reads, rfl, rfl⟩ := (decode_eq_ok_iff sound).mp read
  obtain ⟨found, fits', reads', same, rfl⟩ := (decode_eq_ok_iff sound').mp read'
  obtain ⟨moved, movedFits, movedRecord, movedCells, each⟩ :=
    fits.transfer sound sound' agrees fun _ _ => id
  have slots := fits'.slots_eq sound' movedFits (same.trans movedRecord.symm)
  have foundCells : found.all.map (fun stored => codec.shapeCell? stored.slot) =
      found.all.map fun stored => some stored.cell := by
    apply List.map_congr_left
    intro stored member
    have shaped := readStored_shape sound' fits' member (reads' stored member)
    exact congrArg Except.toOption shaped
  have shapedCells : moved.all.map (fun stored => codec.shapeCell? stored.slot) =
      moved.all.map fun stored => some stored.cell := by
    apply List.map_congr_left
    intro stored' member
    obtain ⟨stored, held, shape, part, cell⟩ := each stored' member
    have shaped := readStored_shape sound fits held (reads stored held)
    rw [← shape, ← part, ← cell] at shaped
    exact congrArg Except.toOption shaped
  have between := congrArg (List.map codec.shapeCell?) slots
  have cells := congrArg (List.map some) movedCells
  rw [List.map_map, List.map_map] at between cells
  rw [fits.cells_eq sound, fits'.cells_eq sound', ← foundCells]
  exact (cells.symm.trans shapedCells.symm).trans between.symm

theorem boundFault_of_refused (sound : first.Sound) (sound' : second.Sound)
    (agrees : first.Agrees Field.shape second) {fault : Fault}
    (read : codec.decode first record = .ok row)
    (refused : codec.decode second record = .error fault) : second.BoundFault fault := by
  obtain ⟨filling, fits, reads, rfl, rfl⟩ := (decode_eq_ok_iff sound).mp read
  obtain ⟨moved, movedFits, movedRecord, -, each⟩ :=
    fits.transfer sound sound' agrees fun _ _ => id
  rw [← movedRecord] at refused
  obtain ⟨flaw, ⟨stored', member, cause, unread, rfl⟩, rfl⟩ :=
    decode_eq_error sound' movedFits refused
  obtain ⟨stored, held, shape, part, cell⟩ := each stored' member
  have shaped := readStored_shape sound fits held (reads stored held)
  rw [← shape, ← part] at shaped
  refine ⟨stored'.field, movedFits.fields ▸ List.mem_map_of_mem member, cause, ?_, rfl⟩
  exact (movedFits.type sound' member).kind.isBound_of_readStored
    (fun _ fixed => movedFits.length_eq sound' member fixed) shaped unread

/-- With ranges and counts alike as well, what one layout reads the other reads, under its own
names. -/
theorem decode_of_agrees (sound : first.Sound) (sound' : second.Sound)
    (agrees : first.Agrees Field.shape second)
    (bounds : first.fields.map Field.bounds = second.fields.map Field.bounds)
    (read : codec.decode first record = .ok row) :
    ∃ other, codec.decode second record = .ok other ∧
      (first.fields.map (·.name) = second.fields.map (·.name) → other = row) := by
  obtain ⟨filling, fits, reads, rfl, rfl⟩ := (decode_eq_ok_iff sound).mp read
  obtain ⟨moved, movedFits, movedRecord, movedCells, each⟩ :=
    fits.transfer sound sound' (agrees.prod bounds) fun _ _ equal => congrArg Prod.fst equal
  have movedReads : ∀ stored' ∈ moved.all, stored'.Reads codec := by
    intro stored' member
    obtain ⟨stored, held, view, part, cell⟩ := each stored' member
    obtain ⟨shape, limits⟩ := Prod.mk.inj view
    obtain ⟨limit, count⟩ := Prod.mk.inj limits
    have shaped := readStored_shape sound fits held (reads stored held)
    have admits := (((fits.type sound held).kind.readStored_eq_ok_iff_shape
      fun _ fixed => fits.length_eq sound held fixed).mp (reads stored held)).2
    rw [← shape, ← part, ← cell] at shaped
    rw [← cell] at admits
    exact ((movedFits.type sound' member).kind.readStored_eq_ok_iff_shape
      fun _ fixed => movedFits.length_eq sound' member fixed).mpr
        ⟨shaped, (Kind.admits_congr limit count).mpr admits⟩
  have decoded := (decode_eq_ok_iff sound').mpr ⟨moved, movedFits, movedReads, movedRecord, rfl⟩
  refine ⟨_, decoded, fun names => ?_⟩
  rw [← fits.fields, ← movedFits.fields, List.map_map, List.map_map] at names
  have entries := congrArg₂ List.zip names movedCells.symm
  rw [List.zip_map', List.zip_map'] at entries
  exact congrArg Row.ofList entries.symm

theorem isOk_of_agrees (sound : first.Sound) (sound' : second.Sound)
    (agrees : first.Agrees Field.shape second)
    (bounds : first.fields.map Field.bounds = second.fields.map Field.bounds)
    (read : (codec.decode first record).isOk = true) :
    (codec.decode second record).isOk = true := by
  cases decoded : codec.decode first record with
  | error fault =>
      rw [decoded] at read
      cases read
  | ok row =>
      obtain ⟨other, read', -⟩ := decode_of_agrees sound sound' agrees bounds decoded
      rw [read']
      rfl

/-- Layouts of one shape read each record alike. -/
theorem readAlike_of_agrees (sound : first.Sound) (sound' : second.Sound)
    (agrees : first.Agrees Field.shape second) (record : Record) :
    first.ReadAlike second (codec.decode first record) (codec.decode second record) where
  cells := fun _ _ read read' => cells_eq_of_decode sound sound' agrees read read'
  refused := fun _ _ read refused => boundFault_of_refused sound sound' agrees read refused
  refused' := fun _ _ refused read => boundFault_of_refused sound' sound agrees.symm read refused
  accepted := fun bounds => Bool.eq_iff_iff.mpr
    ⟨isOk_of_agrees sound sound' agrees bounds, isOk_of_agrees sound' sound agrees.symm bounds.symm⟩
  same := fun bounds names => by
    cases read : codec.decode first record with
    | ok row =>
        obtain ⟨other, read', equal⟩ := decode_of_agrees sound sound' agrees bounds read
        rw [read', equal names]
    | error fault =>
        cases read' : codec.decode second record with
        | ok row =>
            obtain ⟨other, back, -⟩ := decode_of_agrees sound' sound agrees.symm bounds.symm read'
            cases read.symm.trans back
        | error fault' => rfl

end CodecRules

end PackedTables
