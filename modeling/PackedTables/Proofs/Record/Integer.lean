import PackedTables.Proofs.Record.Range
import PackedTables.Proofs.Record.Truth

/-!
# Integers

A number in its range is written as its big endian bytes, a signed one in two's complement, and any
other number is refused.  In turn all bytes of the right length are read as the number that they
denote, which is in range and written as these bytes again.
-/

namespace PackedTables.Kind

variable {count : Nat} {word : BitVec 256} {bytes : Bytes}

/-! ## Read numbers -/

/-- What is read from as many bytes as a kind takes is written as these bytes. -/
theorem Scalar.write_of_read {kind : Kind} {cell : Cell} (scalar : kind.Scalar)
    (width : kind.width = .fixed bytes.length) (read : kind.read true bytes = .ok cell) :
    kind.write cell = .ok bytes :=
  scalar.write_eq_ok_iff.mpr (scalar.spells_of_read width read)

theorem width_uint (counted : bytes.length = count) :
    (Kind.uint (8 * count)).width = .fixed bytes.length := by
  rw [counted, width, Nat.mul_div_cancel_left count (by decide)]

theorem width_int (counted : bytes.length = count) :
    (Kind.int (8 * count)).width = .fixed bytes.length := by
  rw [counted, width, Nat.mul_div_cancel_left count (by decide)]

theorem read_uint (short : count ≤ wordLength) (counted : bytes.length = count) (strict : Bool) :
    ∃ word : BitVec 256, (Kind.uint (8 * count)).read strict bytes = .ok (.uint word) ∧
      word.toNat = bytes.number ∧ word.toNat < 2 ^ (8 * count) := by
  have small := Bytes.number_lt bytes
  rw [counted, Bytes.capacity_eq] at small
  have whole : 2 ^ (8 * count) ≤ 2 ^ 256 :=
    Nat.pow_le_pow_right (by decide) (Nat.mul_le_mul_left 8 short)
  have exact : (BitVec.ofNat 256 bytes.number).toNat = bytes.number := by
    rw [BitVec.toNat_ofNat, Nat.mod_eq_of_lt (Nat.lt_of_lt_of_le small whole)]
  exact ⟨BitVec.ofNat 256 bytes.number, rfl, exact, exact.symm ▸ small⟩

/-- A number in the range of some bits is the number that these denote. -/
theorem toInt_ofInt_of_range (some : 0 < count) {value : Int}
    (above : -2 ^ (8 * count - 1) ≤ value) (below : value < 2 ^ (8 * count - 1)) :
    (BitVec.ofInt (8 * count) value).toInt = value := by
  have halves : (2 : Int) ^ (8 * count) = 2 * 2 ^ (8 * count - 1) := by
    rw [← Int.pow_succ']
    congr 1
    omega
  rw [BitVec.toInt_ofInt]
  refine Int.bmod_eq_of_le_mul_two ?_ ?_ <;> push_cast <;> omega

/-- A signed number is what its bytes denote when these are as many as its kind takes. -/
theorem toInt_eq_of_writeInt (some : 0 < count) (short : count ≤ wordLength)
    (written : writeInt (8 * count) word = .ok bytes) :
    word.toInt = (BitVec.ofNat (8 * count) bytes.number).toInt ∧
      -2 ^ (8 * count - 1) ≤ word.toInt ∧ word.toInt < 2 ^ (8 * count - 1) := by
  rw [writeInt_eq some short] at written
  split at written
  · rename_i fits
    refine ⟨?_, fits⟩
    obtain rfl := Except.ok.inj written
    rw [Bytes.number_bigEndian, Bytes.capacity_eq, Nat.mod_eq_of_lt (BitVec.isLt _),
      BitVec.ofNat_toNat, BitVec.setWidth_eq, toInt_ofInt_of_range some fits.1 fits.2]
  · cases written

theorem read_int (some : 0 < count) (counted : bytes.length = count) (strict : Bool) :
    ∃ word : BitVec 256, (Kind.int (8 * count)).read strict bytes = .ok (.int word) := by
  cases bytes with
  | nil =>
      obtain rfl : 0 = count := counted
      exact absurd some (Nat.lt_irrefl 0)
  | cons byte rest => exact ⟨_, rfl⟩

/-! ## Machine integers -/

/-- A word whose last eight bytes stand behind repeated bytes, as a number. -/
theorem number_overwrite_last (fill : UInt8) {value : Nat} (small : value < 2 ^ 64) :
    (Bytes.overwrite (List.replicate 32 fill) 24 (Bytes.bigEndian 8 value)).number =
      Bytes.number (List.replicate 24 fill) * 2 ^ 64 + value := by
  have front : (List.replicate 32 fill).take 24 = List.replicate 24 fill := List.take_replicate
  rw [Bytes.overwrite_end rfl, front, Bytes.number_append, Bytes.length_bigEndian,
    Bytes.number_bigEndian, Bytes.capacity_eq, Nat.mod_eq_of_lt small]

/-- Filled with its sign, a machine integer is the same number in a whole word. -/
theorem exists_ofInt64 (value : Int64) :
    ∃ word, Cell.ofInt64 value = .int word ∧ word.toInt = value.toInt := by
  have small : value.toBitVec.toNat < 2 ^ 64 := value.toBitVec.isLt
  have signed : value < 0 ↔ value.toInt < 0 := Int64.lt_iff_toInt_lt
  have halves : value.toInt = if 2 * value.toBitVec.toNat < 2 ^ 64 then
      (value.toBitVec.toNat : Int) else value.toBitVec.toNat - 2 ^ 64 :=
    BitVec.toInt_eq_toNat_cond value.toBitVec
  refine ⟨_, rfl, ?_⟩
  rw [number_overwrite_last _ small, BitVec.toInt_eq_toNat_cond, BitVec.toNat_ofNat]
  -- A negative number is too large by 2 ^ 64 in its eight bytes, and with the ones by 2 ^ 256.
  by_cases negative : value < 0
  · have ones : Bytes.number (List.replicate 24 0xFF) + 1 = 2 ^ 192 :=
      (Bytes.number_replicate_last 24).trans (Bytes.capacity_eq 24)
    have below := signed.mp negative
    rw [if_pos negative, Nat.mod_eq_of_lt (by omega), if_neg (by omega)]
    split at halves <;> omega
  · have above := mt signed.mpr negative
    rw [if_neg negative, Bytes.number_replicate_zero, Nat.zero_mul, Nat.zero_add,
      Nat.mod_eq_of_lt (by omega)]
    split at halves
    · rw [if_pos (by omega), halves]
    · omega

/-! ## Both ways -/

/-- For every count of bytes, writing succeeds exactly in the range and gives the big endian bytes,
of two's complement for signed numbers; reading gives the number that the bytes denote, always in
range and written as these bytes; and a machine integer is the same number as a cell. -/
theorem integers_exact (some : 0 < count) (few : count ≤ 32) :
    (∀ word, (Kind.uint (8 * count)).write (.uint word) =
      if word.toNat < 2 ^ (8 * count) then .ok (Bytes.bigEndian count word.toNat)
      else .error (.refused (.uintRange word (8 * count)))) ∧
    (∀ word, (Kind.int (8 * count)).write (.int word) =
      if -2 ^ (8 * count - 1) ≤ word.toInt ∧ word.toInt < 2 ^ (8 * count - 1) then
        .ok (Bytes.bigEndian count (BitVec.ofInt (8 * count) word.toInt).toNat)
      else .error (.refused (.intRange word (8 * count)))) ∧
    (∀ strict bytes, bytes.length = count →
      ∃ word : BitVec 256, (Kind.uint (8 * count)).read strict bytes = .ok (.uint word) ∧
        word.toNat = bytes.number ∧ word.toNat < 2 ^ (8 * count) ∧
        (Kind.uint (8 * count)).write (.uint word) = .ok bytes) ∧
    (∀ strict bytes, bytes.length = count →
      ∃ word : BitVec 256, (Kind.int (8 * count)).read strict bytes = .ok (.int word) ∧
        word.toInt = (BitVec.ofNat (8 * count) bytes.number).toInt ∧
        -2 ^ (8 * count - 1) ≤ word.toInt ∧ word.toInt < 2 ^ (8 * count - 1) ∧
        (Kind.int (8 * count)).write (.int word) = .ok bytes) ∧
    ∀ value : Int64, (∃ word, Cell.ofInt64 value = .int word ∧ word.toInt = value.toInt) ∧
      ((∃ bytes, (Kind.int (8 * count)).write (Cell.ofInt64 value) = .ok bytes) ↔
        -2 ^ (8 * count - 1) ≤ value.toInt ∧ value.toInt < 2 ^ (8 * count - 1)) := by
  refine ⟨fun word => writeUint_eq few, fun word => writeInt_eq some few,
    fun strict bytes counted => ?_, fun strict bytes counted => ?_, fun value => ⟨?_, ?_⟩⟩
  · obtain ⟨word, read, denoted, fits⟩ := read_uint few counted strict
    exact ⟨word, read, denoted, fits,
      Scalar.write_of_read (.uint some few) (width_uint counted) read⟩
  · obtain ⟨word, read⟩ := read_int some counted strict
    have strictly := read
    rw [read_eq_of_ne_bool Kind.noConfusion strict] at strictly
    have written := Scalar.write_of_read (.int some few) (width_int counted) strictly
    obtain ⟨denoted, above, below⟩ := toInt_eq_of_writeInt some few written
    exact ⟨word, read, denoted, above, below, written⟩
  · exact exists_ofInt64 value
  · obtain ⟨word, made, same⟩ := exists_ofInt64 value
    have wrote : (Kind.int (8 * count)).write (.int word) = writeInt (8 * count) word := rfl
    rw [made, wrote, writeInt_eq some few, same]
    split
    · rename_i fits
      exact iff_of_true ⟨_, rfl⟩ fits
    · rename_i beyond
      exact iff_of_false (fun ⟨_, written⟩ => nomatch written) beyond

/-- Two bytes hold minus two, which is no number without a sign, and refuse one more than their
largest number. -/
theorem integers_exact_two :
    (Kind.int 16).write (.int (-2)) = .ok [0xFF, 0xFE] ∧
    (Kind.uint 16).write (.uint (-2)) = .error (.refused (.uintRange (-2) 16)) ∧
    (Kind.int 16).write (.int 0x8000) = .error (.refused (.intRange 0x8000 16)) ∧
    (∃ word : BitVec 256, (Kind.int 16).read true [0x80, 0] = .ok (.int word) ∧
      word.toInt = -0x8000) ∧
    ∃ bytes, (Kind.int 16).write (Cell.ofInt64 (-300)) = .ok bytes := by
  obtain ⟨unsigned, signed, -, read, machine⟩ := @integers_exact 2 (by decide) (by decide)
  refine ⟨(signed (-2)).trans rfl, (unsigned (-2)).trans rfl, (signed 0x8000).trans rfl, ?_, ?_⟩
  · obtain ⟨word, found, denoted, -⟩ := read true [0x80, 0] rfl
    exact ⟨word, found, denoted⟩
  · exact (machine (-300)).2.mpr (by decide)

end PackedTables.Kind
