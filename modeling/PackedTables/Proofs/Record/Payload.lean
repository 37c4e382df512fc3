import PackedTables.Proofs.Record.Spelling

/-!
# Payloads

Cells of variable width, and zero cells.  An array is spelled by its items one after another, so
cutting a payload at the width of the element finds them again.  The stored form of an omitted
value spells the zero of its kind, unless the kind is an array of a fixed count of elements.
-/

namespace PackedTables

namespace Kind

/-- The cell whose bytes are all zero; for a variable width, the one without bytes. -/
def zero : Kind → Cell
  | .bool => .bool false
  | .uint _ => .uint 0
  | .int _ => .int 0
  | .fixedBytes length => .fixedBytes (List.replicate length 0)
  | .address => .address 0
  | .enumeration _ _ => .uint 0
  | .bytes => .bytes []
  | .string => .string ""
  | .array _ _ => .array []

/-- Reading by the width of the kind, in the fixed block or among the payloads. -/
def readStored (strict : Bool) (kind : Kind) (bytes : Bytes) : Except ByteFlaw Cell :=
  match kind.width with
  | .fixed _ => kind.read strict bytes
  | .varying => kind.readPayload strict bytes

variable {kind element : Kind} {length : Option Nat} {cell : Cell} {bytes : Bytes} {strict : Bool}

theorem readStored_of_fixed {width : Nat} (fixed : kind.width = .fixed width) :
    kind.readStored strict bytes = kind.read strict bytes := by
  rw [readStored, fixed]

theorem readStored_of_varying (varying : kind.width = .varying) :
    kind.readStored strict bytes = kind.readPayload strict bytes := by
  rw [readStored, varying]

theorem readArray_eq {width : Nat} (fixed : element.width = .fixed width) (positive : 0 < width) :
    readArray strict element length bytes = readItems strict element width positive length bytes := by
  rw [readArray, fixed]
  exact dif_pos positive

theorem readStored_string_eq_ok :
    Kind.string.readStored strict bytes = .ok cell ↔
      ∃ text, Utf8.decode? bytes = some text ∧ cell = .string text := by
  rw [readStored_of_varying rfl, readPayload]
  cases Utf8.decode? bytes with
  | none => simp
  | some text => simp [eq_comm]

/-- An array is read when its payload falls into whole pieces, as many as are asked for. -/
theorem readItems_eq_ok {width : Nat} {positive : 0 < width} :
    readItems strict element width positive length bytes = .ok cell ↔
      bytes.length % width = 0 ∧ (∀ count, length = some count → bytes.length / width = count) ∧
        ((bytes.chunks width positive).mapM (element.read strict)).map Cell.array = .ok cell := by
  unfold readItems
  split
  · rename_i ragged
    constructor
    · intro impossible
      cases impossible
    · exact fun read => absurd read.1 ragged
  · rename_i whole
    cases length with
    | none => simpa using fun _ => Decidable.not_not.mp whole
    | some expected =>
        constructor
        · intro read
          simp only at read
          split at read
          · rename_i counted
            exact ⟨Decidable.not_not.mp whole, fun count same => Option.some.inj same ▸ counted, read⟩
          · cases read
        · rintro ⟨-, counted, read⟩
          simp only
          rw [if_pos (counted expected rfl)]
          exact read

theorem readArray_of_spells (scalar : element.Scalar)
    (spelled : (Kind.array element length).Spells cell bytes) :
    readArray strict element length bytes = .ok cell := by
  obtain ⟨width, fixed, positive, short⟩ := scalar.width_eq
  cases spelled with
  | array items spelled counted =>
      have exact : ∀ part ∈ items.map (·.2), part.length = width := by
        intro part member
        obtain ⟨item, inItems, rfl⟩ := List.mem_map.mp member
        have sized := scalar.length_of_spells (spelled item inItems)
        rw [fixed] at sized
        exact (Width.fixed.inj sized).symm
      have total := Bytes.length_flatten_of_exact exact
      rw [List.length_map] at total
      rw [readArray_eq fixed positive, readItems_eq_ok, total, Nat.mul_mod_left,
        Nat.mul_div_cancel _ positive, Bytes.chunks_flatten positive exact]
      refine ⟨rfl, counted, Outcome.map_eq_ok.mpr ⟨items.map (·.1), ?_, rfl⟩⟩
      refine Outcome.mapM_eq_ok.mpr ⟨items.map fun item => (item.2, item.1), ?_, ?_, ?_⟩
      · rw [List.map_map]
        rfl
      · rw [List.map_map]
        rfl
      · intro pair member
        obtain ⟨item, inItems, rfl⟩ := List.mem_map.mp member
        exact scalar.read_of_spells (spelled item inItems) strict

theorem spells_of_readArray (scalar : element.Scalar)
    (read : readArray true element length bytes = .ok cell) :
    (Kind.array element length).Spells cell bytes := by
  obtain ⟨width, fixed, positive, short⟩ := scalar.width_eq
  rw [readArray_eq fixed positive, readItems_eq_ok] at read
  obtain ⟨whole, counted, arrayed⟩ := read
  obtain ⟨cells, run, rfl⟩ := Outcome.map_eq_ok.mp arrayed
  obtain ⟨pairs, cut, rfl, each⟩ := Outcome.mapM_eq_ok.mp run
  have exact := Bytes.length_of_mem_chunks positive whole
  have joined := Bytes.flatten_chunks width positive bytes
  rw [← cut] at exact joined
  have spelled : (Kind.array element length).Spells
      (.array ((pairs.map fun pair => (pair.2, pair.1)).map (·.1)))
      ((pairs.map fun pair => (pair.2, pair.1)).map (·.2)).flatten := by
    refine .array _ ?_ ?_
    · intro item member
      obtain ⟨pair, inPairs, rfl⟩ := List.mem_map.mp member
      refine scalar.spells_of_read ?_ (each pair inPairs)
      rw [exact pair.1 (List.mem_map_of_mem inPairs), fixed]
    · intro count same
      rw [List.length_map, ← counted count same, ← Bytes.length_chunks positive whole, ← cut,
        List.length_map]
  rw [List.map_map, List.map_map] at spelled
  exact joined ▸ spelled

/-! ## Sound kinds -/

theorem Sound.readStored_of_spells (sound : kind.Sound) (spelled : kind.Spells cell bytes)
    (strict : Bool) : kind.readStored strict bytes = .ok cell := by
  cases sound with
  | scalar scalar =>
      rw [readStored_of_fixed (scalar.length_of_spells spelled)]
      exact scalar.read_of_spells spelled strict
  | bytes =>
      cases spelled
      rfl
  | string =>
      cases spelled with
      | string text => exact readStored_string_eq_ok.mpr ⟨text, Utf8.decode?_encode text, rfl⟩
  | array scalar counted => exact readArray_of_spells scalar spelled

/-- What is read strictly from a stretch of the right width is what it spells. -/
theorem Sound.spells_of_readStored (sound : kind.Sound)
    (width : ∀ count, kind.width = .fixed count → bytes.length = count)
    (read : kind.readStored true bytes = .ok cell) : kind.Spells cell bytes := by
  cases sound with
  | scalar scalar =>
      obtain ⟨count, fixed, positive, short⟩ := scalar.width_eq
      rw [readStored_of_fixed fixed] at read
      exact scalar.spells_of_read (width count fixed ▸ fixed) read
  | bytes =>
      obtain rfl := Except.ok.inj read
      exact .bytes bytes
  | string =>
      obtain ⟨text, decoded, rfl⟩ := readStored_string_eq_ok.mp read
      rw [← Utf8.encode_of_decode? decoded]
      exact .string text
  | array scalar counted => exact spells_of_readArray scalar read

theorem Scalar.spells_zero (scalar : kind.Scalar) :
    kind.Spells kind.zero (FieldType.standardOf kind.width) := by
  have empty (count : Nat) (short : count ≤ wordLength) :
      extended 0 (List.replicate count 0) = wordBytes 0 := by
    rw [extended, List.length_replicate, List.replicate_append_replicate, wordBytes,
      Nat.sub_add_cancel short]
    exact (Bytes.bigEndian_zero _).symm
  cases scalar with
  | bool => exact .bool false
  | @uint count some few =>
      have short : 8 * count / 8 ≤ wordLength := by
        unfold wordLength
        omega
      exact .uint List.length_replicate (empty _ short)
  | @int count some few =>
      have short : 8 * count / 8 ≤ wordLength := by
        unfold wordLength
        omega
      refine .int List.length_replicate ?_
      have sign : signByte (List.replicate (8 * count / 8) 0) = 0 := by
        cases 8 * count / 8 <;> rfl
      change extended (signByte (List.replicate (8 * count / 8) 0)) _ = _
      rw [sign]
      exact empty _ short
  | @fixedBytes length some few =>
      have spelled := Spells.fixedBytes (List.replicate length 0)
      rwa [List.length_replicate] at spelled
  | address =>
      have spelled := Spells.address 0
      rwa [show (0 : BitVec 160).toNat = 0 from rfl, Bytes.bigEndian_zero] at spelled
  | @enumeration name variants some few =>
      exact .enumeration (show (0 : BitVec 256).toNat < variants from some)

theorem Sound.spells_zero (sound : kind.Sound) (unpinned : kind.isPinned = false) :
    kind.Spells kind.zero (FieldType.standardOf kind.width) := by
  cases sound with
  | scalar scalar => exact scalar.spells_zero
  | bytes => exact .bytes []
  | string => exact .string ""
  | @array element length scalar counted =>
      cases length with
      | none => exact .array [] (by simp) (by simp)
      | some count => cases unpinned

/-- The standard form of an array of a fixed count has no elements, and is refused. -/
theorem Sound.readStored_standard_of_isPinned (sound : kind.Sound) (pinned : kind.isPinned = true)
    (strict : Bool) :
    ∃ element count, kind = .array element (some count) ∧
      kind.readStored strict (FieldType.standardOf kind.width) = .error (.elementCount 0 count) := by
  cases sound with
  | scalar scalar =>
      rw [scalar.isPinned_eq] at pinned
      cases pinned
  | bytes => cases pinned
  | string => cases pinned
  | @array element length scalar counted =>
      cases length with
      | none => cases pinned
      | some count =>
          obtain ⟨width, fixed, positive, short⟩ := scalar.width_eq
          refine ⟨element, count, rfl, ?_⟩
          change readArray strict element (some count) [] = _
          rw [readArray_eq fixed positive, readItems, List.length_nil, Nat.zero_mod, Nat.zero_div,
            if_neg (by decide)]
          exact if_neg (Nat.ne_of_lt (counted count rfl))

end Kind

/-! ## Fields -/

namespace Field

variable {table : String} {field : Field} {cell : Cell} {bytes : Bytes}

theorem write_eq_ok_iff (scalar : field.type.kind.Scalar) :
    field.write table cell = .ok bytes ↔ field.type.kind.Spells cell bytes := by
  rw [write, Outcome.mapError_eq_ok, scalar.write_eq_ok_iff]

theorem writeItems_eq_ok_iff {element : Kind} (scalar : element.Scalar) {items : List Cell} :
    writeItems table field element items = .ok bytes ↔
      ∃ pairs : List (Cell × Bytes), pairs.map (·.1) = items ∧
        (pairs.map (·.2)).flatten = bytes ∧ ∀ pair ∈ pairs, element.Spells pair.1 pair.2 := by
  have each (pair : Cell × Bytes) :
      writeItem table field element pair.1 = .ok pair.2 ↔ element.Spells pair.1 pair.2 := by
    rw [writeItem, Outcome.mapError_eq_ok, scalar.write_eq_ok_iff]
  change Except.map _ _ = _ ↔ _
  rw [Outcome.map_eq_ok]
  constructor
  · rintro ⟨parts, run, joined⟩
    obtain ⟨pairs, rfl, rfl, written⟩ := Outcome.mapM_eq_ok.mp run
    exact ⟨pairs, rfl, joined, fun pair member => (each pair).mp (written pair member)⟩
  · rintro ⟨pairs, rfl, joined, spelled⟩
    refine ⟨pairs.map (·.2), Outcome.mapM_eq_ok.mpr ⟨pairs, rfl, rfl, ?_⟩, joined⟩
    exact fun pair member => (each pair).mpr (spelled pair member)

theorem writePayload_eq_ok_iff (sound : field.type.kind.Sound)
    (varying : field.type.kind.width = .varying) :
    field.writePayload table cell = .ok bytes ↔ field.type.kind.Spells cell bytes := by
  unfold writePayload
  generalize field.type.kind = kind at sound varying
  cases sound with
  | scalar scalar =>
      obtain ⟨width, fixed, positive, short⟩ := scalar.width_eq
      rw [fixed] at varying
      cases varying
  | bytes =>
      constructor
      · intro written
        cases cell with
        | bytes stored =>
            obtain rfl := Except.ok.inj written
            exact .bytes stored
        | _ => cases written
      · intro spelled
        cases spelled
        rfl
  | string =>
      constructor
      · intro written
        cases cell with
        | string text =>
            obtain rfl := Except.ok.inj written
            exact .string text
        | _ => cases written
      · intro spelled
        cases spelled
        rfl
  | @array element length scalar counted =>
      constructor
      · intro written
        cases cell with
        | array items =>
            cases length with
            | none =>
                obtain ⟨pairs, rfl, rfl, spelled⟩ := (writeItems_eq_ok_iff scalar).mp written
                exact .array pairs spelled (by simp)
            | some count =>
                simp only at written
                split at written
                · rename_i exact
                  obtain ⟨pairs, rfl, rfl, spelled⟩ := (writeItems_eq_ok_iff scalar).mp written
                  rw [List.length_map] at exact
                  exact .array pairs spelled fun other same => Option.some.inj same ▸ exact
                · cases written
        | _ => cases length <;> cases written
      · intro spelled
        cases spelled with
        | array pairs spelled exact =>
            have written : writeItems table field element (pairs.map (·.1)) =
                .ok (pairs.map (·.2)).flatten :=
              (writeItems_eq_ok_iff scalar).mpr ⟨pairs, rfl, rfl, spelled⟩
            cases length with
            | none => exact written
            | some count =>
                simp only
                rw [List.length_map, if_pos (exact count rfl)]
                exact written

end Field

end PackedTables
