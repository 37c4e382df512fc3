import PackedTables.Proofs.Record.Payload
import PackedTables.Proofs.Types.Shape

/-!
# Reading by shape

A kind reads what its shape reads, but for cells beyond its range and for arrays of another count.
-/

namespace PackedTables

/-- No number at or above the limit. -/
def Cell.Below (limit : Nat) : Cell → Prop
  | .uint word => word.toNat < limit
  | _ => True

/-- The flaws that a kind finds where its shape finds none. -/
def ByteFlaw.isBound : ByteFlaw → Bool
  | .noVariant _ _ => true
  | .elementCount _ _ => true
  | _ => false

namespace Kind

/-- The cells of a shape that a kind of the shape takes. -/
def Admits (kind : Kind) : Cell → Prop
  | .array items => (∀ item ∈ items, item.Below kind.limit) ∧
      ∀ count, kind.count? = some count → items.length = count
  | cell => cell.Below kind.limit

variable {kind element : Kind} {strict : Bool} {cell : Cell} {bytes : Bytes} {cause : ByteFlaw}

/-! ## Cells of fixed width -/

theorem readVariant_eq_ok_iff {name : String} {variants : Nat} {byte : UInt8} (strict : Bool) :
    readVariant name variants byte = .ok cell ↔
      (Kind.uint 8).read strict [byte] = .ok cell ∧ cell.Below variants := by
  have number : (BitVec.ofNat 256 byte.toNat).toNat = byte.toNat := by
    have small := byte.toNat_lt
    rw [BitVec.toNat_ofNat]
    omega
  have single : Bytes.number [byte] = byte.toNat := by simp [Bytes.number]
  rw [readVariant, Kind.read, single, Except.ok.injEq]
  constructor
  · intro read
    split at read
    · rename_i inside
      obtain rfl := Except.ok.inj read
      refine ⟨rfl, ?_⟩
      rwa [Cell.Below, number]
    · cases read
  · rintro ⟨rfl, below⟩
    rw [Cell.Below, number] at below
    rw [if_pos below]

theorem exists_of_readBool {byte : UInt8} (read : readBool strict byte = .ok cell) :
    ∃ value, cell = .bool value := by
  unfold readBool at read
  split at read
  · exact ⟨false, (Except.ok.inj read).symm⟩
  · split at read
    · exact ⟨true, (Except.ok.inj read).symm⟩
    · split at read
      · cases read
      · exact ⟨true, (Except.ok.inj read).symm⟩

/-- Only an enumeration takes fewer cells than its shape. -/
theorem Scalar.read_eq_ok_iff_shape (scalar : kind.Scalar)
    (sized : kind.width = .fixed bytes.length) :
    kind.read strict bytes = .ok cell ↔
      kind.shape.read strict bytes = .ok cell ∧ cell.Below kind.limit := by
  cases scalar with
  | bool =>
      refine ⟨fun read => ⟨read, ?_⟩, And.left⟩
      obtain ⟨byte, rfl⟩ := List.length_eq_one_iff.mp (Width.fixed.inj sized).symm
      obtain ⟨value, rfl⟩ := exists_of_readBool read
      trivial
  | @uint count some few =>
      refine ⟨fun read => ⟨read, ?_⟩, And.left⟩
      obtain rfl := Except.ok.inj read
      have length : bytes.length = count := by
        have width := Width.fixed.inj sized
        omega
      have small := Bytes.number_lt bytes
      rw [Bytes.capacity_eq, length] at small
      change (BitVec.ofNat 256 bytes.number).toNat < 2 ^ (8 * count)
      rw [BitVec.toNat_ofNat]
      exact Nat.lt_of_le_of_lt (Nat.mod_le _ _) small
  | int some few =>
      refine ⟨fun read => ⟨read, ?_⟩, And.left⟩
      cases bytes with
      | nil => cases read
      | cons byte rest =>
          obtain rfl := Except.ok.inj read
          trivial
  | fixedBytes some few =>
      refine ⟨fun read => ⟨read, ?_⟩, And.left⟩
      obtain rfl := Except.ok.inj read
      trivial
  | address =>
      refine ⟨fun read => ⟨read, ?_⟩, And.left⟩
      rw [Kind.read] at read
      split at read
      · obtain rfl := Except.ok.inj read
        trivial
      · cases read
  | enumeration some few =>
      obtain ⟨byte, rfl⟩ := List.length_eq_one_iff.mp (Width.fixed.inj sized).symm
      exact readVariant_eq_ok_iff strict

theorem Scalar.admits_iff (scalar : kind.Scalar) (sized : kind.width = .fixed bytes.length)
    (read : kind.shape.read strict bytes = .ok cell) : kind.Admits cell ↔ cell.Below kind.limit := by
  cases cell with
  | array items =>
      exfalso
      cases scalar with
      | bool =>
          obtain ⟨byte, rfl⟩ := List.length_eq_one_iff.mp (Width.fixed.inj sized).symm
          obtain ⟨value, impossible⟩ := exists_of_readBool read
          cases impossible
      | uint some few => cases read
      | int some few => cases bytes <;> cases read
      | fixedBytes some few => cases read
      | address =>
          change (if bytes.length = addressWidth then _ else _) = Except.ok _ at read
          split at read <;> cases read
      | enumeration some few => cases read
  | _ => rfl

/-- Where its shape reads, a scalar kind fails only for its range. -/
theorem Scalar.isBound_of_read (scalar : kind.Scalar) (sized : kind.width = .fixed bytes.length)
    (read : kind.shape.read strict bytes = .ok cell)
    (refused : kind.read strict bytes = .error cause) : cause.isBound = true := by
  cases scalar with
  | enumeration some few =>
      obtain ⟨byte, rfl⟩ := List.length_eq_one_iff.mp (Width.fixed.inj sized).symm
      rw [Kind.read, readVariant] at refused
      split at refused
      · cases refused
      · obtain rfl := Except.error.inj refused
        rfl
  | _ => cases read.symm.trans refused

/-! ## Arrays -/

theorem mapM_read_eq_ok_iff_shape (scalar : element.Scalar) {width : Nat}
    (fixed : element.width = .fixed width) {parts : List Bytes}
    (exact : ∀ part ∈ parts, part.length = width) {cells : List Cell} :
    parts.mapM (element.read strict) = .ok cells ↔
      parts.mapM (element.shape.read strict) = .ok cells ∧
        ∀ cell ∈ cells, cell.Below element.limit := by
  have each (part : Bytes) (member : part ∈ parts) (cell : Cell) :
      element.read strict part = .ok cell ↔
        element.shape.read strict part = .ok cell ∧ cell.Below element.limit :=
    scalar.read_eq_ok_iff_shape (exact part member ▸ fixed)
  rw [Outcome.mapM_eq_ok, Outcome.mapM_eq_ok]
  constructor
  · rintro ⟨pairs, rfl, rfl, reads⟩
    have both := fun pair member =>
      (each pair.1 (List.mem_map_of_mem member) pair.2).mp (reads pair member)
    refine ⟨⟨pairs, rfl, rfl, fun pair member => (both pair member).1⟩, ?_⟩
    exact List.forall_mem_map.mpr fun pair member => (both pair member).2
  · rintro ⟨⟨pairs, rfl, rfl, reads⟩, below⟩
    refine ⟨pairs, rfl, rfl, fun pair member => ?_⟩
    exact (each pair.1 (List.mem_map_of_mem member) pair.2).mpr
      ⟨reads pair member, below _ (List.mem_map_of_mem member)⟩

theorem readArray_eq_ok_iff_shape (scalar : element.Scalar) {length : Option Nat} :
    readArray strict element length bytes = .ok cell ↔
      readArray strict element.shape none bytes = .ok cell ∧
        (Kind.array element length).Admits cell := by
  obtain ⟨width, fixed, positive, short⟩ := scalar.width_eq
  have fixed' := scalar.width_shape.trans fixed
  rw [readArray_eq fixed positive, readArray_eq fixed' positive, readItems_eq_ok, readItems_eq_ok,
    Outcome.map_eq_ok, Outcome.map_eq_ok]
  constructor
  · rintro ⟨whole, counted, cells, run, rfl⟩
    have exact := Bytes.length_of_mem_chunks positive whole
    obtain ⟨run', below⟩ := (mapM_read_eq_ok_iff_shape scalar fixed exact).mp run
    refine ⟨⟨whole, by simp, cells, run', rfl⟩, below, fun count same => ?_⟩
    rw [Outcome.length_of_mapM run, Bytes.length_chunks positive whole]
    exact counted count same
  · rintro ⟨⟨whole, -, cells, run, rfl⟩, below, counted⟩
    have exact := Bytes.length_of_mem_chunks positive whole
    refine ⟨whole, fun count same => ?_, cells,
      (mapM_read_eq_ok_iff_shape scalar fixed exact).mpr ⟨run, below⟩, rfl⟩
    rw [← Bytes.length_chunks positive whole, ← Outcome.length_of_mapM run]
    exact counted count same

theorem isBound_of_readArray (scalar : element.Scalar) {length : Option Nat}
    (read : readArray strict element.shape none bytes = .ok cell)
    (refused : readArray strict element length bytes = .error cause) : cause.isBound = true := by
  obtain ⟨width, fixed, positive, short⟩ := scalar.width_eq
  have fixed' := scalar.width_shape.trans fixed
  rw [readArray_eq fixed' positive, readItems_eq_ok, Outcome.map_eq_ok] at read
  obtain ⟨whole, -, cells, run, rfl⟩ := read
  have exact := Bytes.length_of_mem_chunks positive whole
  have items : ((bytes.chunks width positive).mapM (element.read strict)).map Cell.array =
      .error cause → cause.isBound = true := by
    intro refused
    obtain ⟨part, member, unread⟩ := Outcome.mapM_eq_error (Outcome.map_eq_error.mp refused)
    obtain ⟨pairs, parts, -, reads⟩ := Outcome.mapM_eq_ok.mp run
    rw [← parts] at member
    obtain ⟨pair, inPairs, rfl⟩ := List.mem_map.mp member
    refine scalar.isBound_of_read ?_ (reads pair inPairs) unread
    rw [exact pair.1 (parts ▸ List.mem_map_of_mem inPairs), fixed]
  rw [readArray_eq fixed positive, readItems, if_neg (by simpa using whole)] at refused
  cases length with
  | none => exact items refused
  | some count =>
      simp only at refused
      split at refused
      · exact items refused
      · obtain rfl := Except.error.inj refused
        rfl

/-! ## Sound kinds -/

theorem Sound.readStored_eq_ok_iff_shape (sound : kind.Sound)
    (width : ∀ count, kind.width = .fixed count → bytes.length = count) :
    kind.readStored strict bytes = .ok cell ↔
      kind.shape.readStored strict bytes = .ok cell ∧ kind.Admits cell := by
  cases sound with
  | scalar scalar =>
      obtain ⟨count, fixed, positive, short⟩ := scalar.width_eq
      have sized : kind.width = .fixed bytes.length := width count fixed ▸ fixed
      rw [readStored_of_fixed fixed, readStored_of_fixed (scalar.width_shape.trans fixed),
        scalar.read_eq_ok_iff_shape sized]
      exact and_congr_right fun read => (scalar.admits_iff sized read).symm
  | bytes =>
      refine ⟨fun read => ⟨read, ?_⟩, And.left⟩
      obtain rfl := Except.ok.inj read
      trivial
  | string =>
      refine ⟨fun read => ⟨read, ?_⟩, And.left⟩
      obtain ⟨text, -, rfl⟩ := readStored_string_eq_ok.mp read
      trivial
  | array scalar counted => exact readArray_eq_ok_iff_shape scalar

/-- A kind refuses what its shape reads only for its range or its count. -/
theorem Sound.isBound_of_readStored (sound : kind.Sound)
    (width : ∀ count, kind.width = .fixed count → bytes.length = count)
    (read : kind.shape.readStored strict bytes = .ok cell)
    (refused : kind.readStored strict bytes = .error cause) : cause.isBound = true := by
  cases sound with
  | scalar scalar =>
      obtain ⟨count, fixed, positive, short⟩ := scalar.width_eq
      have sized : kind.width = .fixed bytes.length := width count fixed ▸ fixed
      rw [readStored_of_fixed fixed] at refused
      rw [readStored_of_fixed (scalar.width_shape.trans fixed)] at read
      exact scalar.isBound_of_read sized read refused
  | bytes => cases read.symm.trans refused
  | string => cases read.symm.trans refused
  | array scalar counted => exact isBound_of_readArray scalar read refused

theorem admits_congr {other : Kind} (limits : kind.limit = other.limit)
    (counts : kind.count? = other.count?) : kind.Admits cell ↔ other.Admits cell := by
  cases cell with
  | array items => rw [Admits, Admits, limits, counts]
  | uint word =>
      change word.toNat < kind.limit ↔ word.toNat < other.limit
      rw [limits]
  | _ => rfl

end Kind

end PackedTables
