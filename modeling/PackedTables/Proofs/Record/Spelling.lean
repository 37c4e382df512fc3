import PackedTables.Proofs.Bytes.Pieces
import PackedTables.Proofs.Outcome
import PackedTables.Proofs.Types.Sound
import PackedTables.Record.Read

/-!
# Spellings

The bytes that stand for a cell in a kind.  The relation is told apart from writing and reading: a
kind is written exactly as it is spelled, and what is read strictly from bytes of the right length
is what they spell.
-/

namespace PackedTables

namespace Kind

/-- Bytes filled up on the left to a whole word. -/
def extended (fill : UInt8) (bytes : Bytes) : Bytes :=
  List.replicate (wordLength - bytes.length) fill ++ bytes

def wordBytes (word : BitVec 256) : Bytes := Bytes.bigEndian wordLength word.toNat

/-- The bytes that stand for a cell. -/
inductive Spells : Kind → Cell → Bytes → Prop
  | bool (value : Bool) : Spells .bool (.bool value) [if value then 1 else 0]
  | uint {bits : Nat} {word : BitVec 256} {bytes : Bytes} : bytes.length = bits / 8 →
      extended 0 bytes = wordBytes word → Spells (.uint bits) (.uint word) bytes
  | int {bits : Nat} {word : BitVec 256} {bytes : Bytes} : bytes.length = bits / 8 →
      extended (signByte bytes) bytes = wordBytes word → Spells (.int bits) (.int word) bytes
  | enumeration {name : String} {variants : Nat} {word : BitVec 256} : word.toNat < variants →
      Spells (.enumeration name variants) (.uint word) [UInt8.ofNat word.toNat]
  | fixedBytes (bytes : Bytes) : Spells (.fixedBytes bytes.length) (.fixedBytes bytes) bytes
  | address (value : BitVec 160) :
      Spells .address (.address value) (Bytes.bigEndian addressWidth value.toNat)
  | bytes (bytes : Bytes) : Spells .bytes (.bytes bytes) bytes
  | string (text : String) : Spells .string (.string text) (Utf8.encode text)
  | array {element : Kind} {length : Option Nat} (items : List (Cell × Bytes)) :
      (∀ item ∈ items, Spells element item.1 item.2) →
      (∀ count, length = some count → items.length = count) →
      Spells (.array element length) (.array (items.map (·.1))) (items.map (·.2)).flatten

/-! ## Words -/

theorem number_extended_zero (bytes : Bytes) : (extended 0 bytes).number = bytes.number :=
  Bytes.number_zeros_append _ bytes

theorem length_extended {fill : UInt8} {bytes : Bytes} (short : bytes.length ≤ wordLength) :
    (extended fill bytes).length = wordLength := by
  rw [extended, List.length_append, List.length_replicate]
  omega

theorem capacity_wordLength : Bytes.capacity wordLength = 2 ^ 256 := by decide

theorem ofNat_number_wordBytes (word : BitVec 256) :
    BitVec.ofNat 256 (wordBytes word).number = word := by
  rw [wordBytes, Bytes.number_bigEndian, capacity_wordLength, Nat.mod_eq_of_lt word.isLt,
    BitVec.ofNat_toNat, BitVec.setWidth_eq]

theorem wordBytes_ofNat_number {bytes : Bytes} (whole : bytes.length = wordLength) :
    wordBytes (BitVec.ofNat 256 bytes.number) = bytes := by
  have small := Bytes.number_lt bytes
  rw [whole, capacity_wordLength] at small
  rw [wordBytes, BitVec.toNat_ofNat, Nat.mod_eq_of_lt small, ← whole, Bytes.bigEndian_number]

/-- The front of a word can go when the rest, filled up, is the word again. -/
theorem low_bytes_iff {fill : UInt8} {word : BitVec 256} {count : Nat} {bytes : Bytes}
    (short : count ≤ wordLength) :
    ((wordBytes word).take (wordLength - count)).all (· == fill) = true ∧
        (wordBytes word).drop (wordLength - count) = bytes ↔
      bytes.length = count ∧ extended fill bytes = wordBytes word := by
  have whole : (wordBytes word).length = wordLength := Bytes.length_bigEndian _ _
  constructor
  · rintro ⟨filled, rfl⟩
    have counted : ((wordBytes word).drop (wordLength - count)).length = count := by
      rw [List.length_drop, whole]
      omega
    have front : (wordBytes word).take (wordLength - count) =
        List.replicate (wordLength - count) fill := by
      refine List.eq_replicate_iff.mpr ⟨?_, by simpa using filled⟩
      rw [List.length_take, whole]
      omega
    refine ⟨counted, ?_⟩
    rw [extended, counted, ← front, List.take_append_drop]
  · rintro ⟨rfl, same⟩
    rw [← same, extended, List.take_left' List.length_replicate,
      List.drop_left' List.length_replicate]
    exact ⟨by simp, rfl⟩

/-- Both writers of numbers drop the front of a word when it repeats the byte `fill`. -/
theorem keep_low_eq_ok_iff (fill : Bytes → UInt8) {fault : CellFault} {word : BitVec 256}
    {count : Nat} {bytes : Bytes} (short : count ≤ wordLength) :
    (if ((wordBytes word).take (wordLength - count)).all
          (· == fill ((wordBytes word).drop (wordLength - count))) then
        .ok ((wordBytes word).drop (wordLength - count))
      else .error fault) = Except.ok bytes ↔
      bytes.length = count ∧ extended (fill bytes) bytes = wordBytes word := by
  rw [← low_bytes_iff short]
  split
  · rename_i filled
    rw [Except.ok.injEq]
    constructor
    · rintro rfl
      exact ⟨filled, rfl⟩
    · exact fun both => both.2
  · rename_i unfilled
    constructor
    · intro impossible
      cases impossible
    · rintro ⟨filled, rfl⟩
      exact absurd filled unfilled

theorem writeUint_eq_ok_iff {bits : Nat} {word : BitVec 256} {bytes : Bytes}
    (short : bits / 8 ≤ wordLength) :
    writeUint bits word = .ok bytes ↔
      bytes.length = bits / 8 ∧ extended 0 bytes = wordBytes word :=
  keep_low_eq_ok_iff (fun _ => 0) short

theorem writeInt_eq_ok_iff {bits : Nat} {word : BitVec 256} {bytes : Bytes}
    (short : bits / 8 ≤ wordLength) :
    writeInt bits word = .ok bytes ↔
      bytes.length = bits / 8 ∧ extended (signByte bytes) bytes = wordBytes word :=
  keep_low_eq_ok_iff signByte short

/-! ## Cells of fixed width -/

variable {kind : Kind} {cell : Cell} {bytes : Bytes}

theorem Scalar.write_eq_ok_iff (scalar : kind.Scalar) :
    kind.write cell = .ok bytes ↔ kind.Spells cell bytes := by
  cases scalar with
  | bool =>
      constructor
      · intro written
        cases cell with
        | bool value =>
            obtain rfl := Except.ok.inj written
            exact .bool value
        | _ => cases written
      · intro spelled
        cases spelled
        rfl
  | @uint count some few =>
      have short : 8 * count / 8 ≤ wordLength := by
        unfold wordLength
        omega
      constructor
      · intro written
        cases cell with
        | uint word =>
            obtain ⟨length, same⟩ := (writeUint_eq_ok_iff short).mp written
            exact .uint length same
        | _ => cases written
      · intro spelled
        cases spelled with
        | uint length same => exact (writeUint_eq_ok_iff short).mpr ⟨length, same⟩
  | @int count some few =>
      have short : 8 * count / 8 ≤ wordLength := by
        unfold wordLength
        omega
      constructor
      · intro written
        cases cell with
        | int word =>
            obtain ⟨length, same⟩ := (writeInt_eq_ok_iff short).mp written
            exact .int length same
        | _ => cases written
      · intro spelled
        cases spelled with
        | int length same => exact (writeInt_eq_ok_iff short).mpr ⟨length, same⟩
  | @fixedBytes length some few =>
      constructor
      · intro written
        cases cell with
        | fixedBytes stored =>
            simp only [Kind.write] at written
            split at written
            · rename_i exact
              obtain rfl := Except.ok.inj written
              subst exact
              exact .fixedBytes stored
            · cases written
        | _ => cases written
      · intro spelled
        cases spelled
        exact if_pos rfl
  | address =>
      constructor
      · intro written
        cases cell with
        | address value =>
            obtain rfl := Except.ok.inj written
            exact .address value
        | _ => cases written
      · intro spelled
        cases spelled
        rfl
  | @enumeration name variants some few =>
      constructor
      · intro written
        cases cell with
        | uint word =>
            simp only [Kind.write] at written
            split at written
            · rename_i known
              obtain rfl := Except.ok.inj written
              exact .enumeration known
            · cases written
        | _ => cases written
      · intro spelled
        cases spelled with
        | enumeration known => exact if_pos known

theorem Scalar.length_of_spells (scalar : kind.Scalar) (spelled : kind.Spells cell bytes) :
    kind.width = .fixed bytes.length := by
  cases spelled with
  | bool value => rfl
  | uint length same => exact congrArg Width.fixed length.symm
  | int length same => exact congrArg Width.fixed length.symm
  | enumeration known => rfl
  | fixedBytes => rfl
  | address value => exact congrArg Width.fixed (Bytes.length_bigEndian _ _).symm
  | bytes => cases scalar
  | string text => cases scalar
  | array items spelled counted => cases scalar

theorem readBool_spelled (strict value : Bool) :
    readBool strict (if value then 1 else 0) = .ok (.bool value) := by
  cases value <;> rfl

theorem Scalar.read_of_spells (scalar : kind.Scalar) (spelled : kind.Spells cell bytes)
    (strict : Bool) : kind.read strict bytes = .ok cell := by
  cases spelled with
  | bool value => exact readBool_spelled strict value
  | @uint bits word bytes length same =>
      rw [Kind.read, ← number_extended_zero, same, ofNat_number_wordBytes]
  | @int bits word bytes length same =>
      cases bytes with
      | nil =>
          obtain ⟨width, fixed, positive, short⟩ := scalar.width_eq
          obtain rfl := Width.fixed.inj fixed
          rw [List.length_nil] at length
          omega
      | cons byte rest =>
          change Except.ok (Cell.int (BitVec.ofNat 256 (extended _ _).number)) = _
          rw [same, ofNat_number_wordBytes]
  | @enumeration name variants word known =>
      cases scalar with
      | enumeration some few =>
          have small : word.toNat % 256 = word.toNat := Nat.mod_eq_of_lt (by omega)
          rw [Kind.read, readVariant, UInt8.toNat_ofNat', small, if_pos known, BitVec.ofNat_toNat,
            BitVec.setWidth_eq]
  | fixedBytes => rfl
  | address value =>
      have capacity : Bytes.capacity addressWidth = 2 ^ 160 := by decide
      rw [Kind.read, if_pos (Bytes.length_bigEndian _ _), Bytes.number_bigEndian, capacity,
        Nat.mod_eq_of_lt value.isLt, BitVec.ofNat_toNat, BitVec.setWidth_eq]
  | bytes => cases scalar
  | string text => cases scalar
  | array items spelled counted => cases scalar

/-- What is read strictly from as many bytes as a kind takes is what they spell. -/
theorem Scalar.spells_of_read (scalar : kind.Scalar) (width : kind.width = .fixed bytes.length)
    (read : kind.read true bytes = .ok cell) : kind.Spells cell bytes := by
  cases scalar with
  | bool =>
      have single : bytes.length = 1 := (Width.fixed.inj width).symm
      obtain ⟨byte, rfl⟩ := List.length_eq_one_iff.mp single
      change readBool true byte = .ok cell at read
      unfold readBool at read
      split at read
      · rename_i zero
        obtain rfl := Except.ok.inj read
        subst zero
        exact .bool false
      · split at read
        · rename_i one
          obtain rfl := Except.ok.inj read
          subst one
          exact .bool true
        · cases read
  | @uint count some few =>
      have length : bytes.length = 8 * count / 8 := (Width.fixed.inj width).symm
      have short : bytes.length ≤ wordLength := by
        unfold wordLength
        omega
      obtain rfl := Except.ok.inj read
      refine .uint length ?_
      rw [← number_extended_zero, wordBytes_ofNat_number (length_extended short)]
  | @int count some few =>
      have length : bytes.length = 8 * count / 8 := (Width.fixed.inj width).symm
      have short : bytes.length ≤ wordLength := by
        unfold wordLength
        omega
      cases bytes with
      | nil => cases read
      | cons byte rest =>
          obtain rfl := Except.ok.inj read
          exact .int length (wordBytes_ofNat_number (length_extended short)).symm
  | @fixedBytes length some few =>
      obtain rfl := Except.ok.inj read
      obtain rfl := Width.fixed.inj width
      exact .fixedBytes bytes
  | address =>
      have length : bytes.length = addressWidth := (Width.fixed.inj width).symm
      rw [Kind.read, if_pos length] at read
      obtain rfl := Except.ok.inj read
      have capacity : Bytes.capacity addressWidth = 2 ^ 160 := by decide
      have small := Bytes.number_lt bytes
      rw [length, capacity] at small
      have spelled := Spells.address (BitVec.ofNat 160 bytes.number)
      rwa [BitVec.toNat_ofNat, Nat.mod_eq_of_lt small, ← length, Bytes.bigEndian_number] at spelled
  | @enumeration name variants some few =>
      have single : bytes.length = 1 := (Width.fixed.inj width).symm
      obtain ⟨byte, rfl⟩ := List.length_eq_one_iff.mp single
      change readVariant name variants byte = .ok cell at read
      unfold readVariant at read
      split at read
      · rename_i known
        obtain rfl := Except.ok.inj read
        have small : byte.toNat < 2 ^ 256 := Nat.lt_of_lt_of_le byte.toNat_lt (by decide)
        have exact : (BitVec.ofNat 256 byte.toNat).toNat = byte.toNat := by
          rw [BitVec.toNat_ofNat, Nat.mod_eq_of_lt small]
        have spelled : (Kind.enumeration name variants).Spells _ _ :=
          .enumeration (exact.symm ▸ known)
        rwa [exact, UInt8.ofNat_toNat] at spelled
      · cases read

end Kind

end PackedTables
