import Mathlib.Algebra.Group.Int.Defs
import PackedTables.Proofs.Record.Spelling

/-!
# Ranges

Which cells a kind takes, and what is wrong with the others.  A number may drop its front bytes
exactly when it lies in the range of the bytes that are left, signed or not.
-/

namespace PackedTables

namespace Kind

/-! ## Words in two pieces -/

/-- The bytes of a word in front of the low ones. -/
def highBytes (word : BitVec 256) (count : Nat) : Bytes :=
  (wordBytes word).take (wordLength - count)

def lowBytes (word : BitVec 256) (count : Nat) : Bytes :=
  (wordBytes word).drop (wordLength - count)

/-- What the front adds to the number of a word. -/
def highPart (word : BitVec 256) (count : Nat) : Nat :=
  Bytes.number (highBytes word count) * Bytes.capacity count

section Pieces

variable {count : Nat} (word : BitVec 256) (short : count ≤ wordLength)

theorem length_highBytes : (highBytes word count).length = wordLength - count := by
  rw [highBytes, List.length_take, wordBytes, Bytes.length_bigEndian]
  exact Nat.min_eq_left (Nat.sub_le _ _)

/-- Either the front is zero, or it adds at least what the low bytes can hold. -/
theorem highBytes_zero (count : Nat) :
    (highBytes word count).all (· == 0) = true ∧ highPart word count = 0 ∨
      ¬(highBytes word count).all (· == 0) = true ∧ Bytes.capacity count ≤ highPart word count := by
  rw [Bytes.all_eq_iff, Bytes.number_replicate_zero, highPart]
  rcases Nat.eq_zero_or_pos (Bytes.number (highBytes word count)) with zero | positive
  · exact .inl ⟨zero, by rw [zero, Nat.zero_mul]⟩
  · exact .inr ⟨by omega, Nat.le_mul_of_pos_left _ positive⟩

include short

theorem length_lowBytes : (lowBytes word count).length = count := by
  rw [lowBytes, List.length_drop, wordBytes, Bytes.length_bigEndian]
  exact Nat.sub_sub_self short

theorem number_lowBytes_lt : Bytes.number (lowBytes word count) < Bytes.capacity count := by
  have small := Bytes.number_lt (lowBytes word count)
  rwa [length_lowBytes word short] at small

theorem toNat_eq_parts : word.toNat = highPart word count + Bytes.number (lowBytes word count) := by
  have whole : Bytes.number (wordBytes word) = word.toNat := by
    rw [wordBytes, Bytes.number_bigEndian, capacity_wordLength, Nat.mod_eq_of_lt word.isLt]
  have parts := Bytes.number_append (highBytes word count) (lowBytes word count)
  rw [length_lowBytes word short, highBytes, lowBytes, List.take_append_drop, whole] at parts
  exact parts

/-- Either all bits of the front are set, or there is room for one more in it. -/
theorem highBytes_last :
    (highBytes word count).all (· == 255) = true ∧
        highPart word count + Bytes.capacity count = 2 ^ 256 ∨
      ¬(highBytes word count).all (· == 255) = true ∧
        highPart word count + 2 * Bytes.capacity count ≤ 2 ^ 256 := by
  have bound := Bytes.number_lt (highBytes word count)
  have last := Bytes.number_replicate_last (wordLength - count)
  have total : Bytes.capacity (wordLength - count) * Bytes.capacity count = 2 ^ 256 := by
    rw [Bytes.capacity_eq, Bytes.capacity_eq, ← Nat.pow_add, ← Nat.mul_add,
      Nat.sub_add_cancel short, wordLength]
  rw [length_highBytes, ← last] at bound
  rw [Bytes.all_eq_iff, length_highBytes, highPart, ← total, ← last, ← Nat.succ_mul, ← Nat.add_mul]
  rcases Nat.eq_or_lt_of_le (Nat.le_of_lt_succ bound) with same | lower
  · exact .inl ⟨same, by rw [same]⟩
  · exact .inr ⟨Nat.ne_of_lt lower, Nat.mul_le_mul_right _ (by omega)⟩

end Pieces

/-! ## Numbers in range -/

section Number

variable {word : BitVec 256} {bits count : Nat}

/-- The front is zero in the numbers that the low bytes can hold. -/
theorem highBytes_zero_iff (short : count ≤ wordLength) :
    (highBytes word count).all (· == 0) = true ↔ word.toNat < Bytes.capacity count := by
  have small := number_lowBytes_lt word short
  rw [toNat_eq_parts word short]
  rcases highBytes_zero word count with ⟨filled, zero⟩ | ⟨unfilled, large⟩
  · exact iff_of_true filled (by omega)
  · exact iff_of_false unfilled (by omega)

theorem signByte_eq {bytes : Bytes} (nonempty : 0 < bytes.length) :
    signByte bytes =
      if 2 * Bytes.number bytes < Bytes.capacity bytes.length then 0 else 255 := by
  cases bytes with
  | nil => exact absurd nonempty (Nat.lt_irrefl _)
  | cons byte rest =>
      have small := Bytes.number_lt rest
      rw [signByte, Bytes.number_cons, List.length_cons, Bytes.capacity]
      by_cases high : 128 ≤ byte.toNat
      · have step := Nat.mul_le_mul_right (Bytes.capacity rest.length) high
        rw [if_pos high, if_neg (by omega)]
      · have step := Nat.mul_le_mul_right (Bytes.capacity rest.length)
          (show byte.toNat ≤ 127 by omega)
        rw [if_neg high, if_pos (by omega)]

/-- The front repeats the sign in the numbers that the low bytes hold with their sign. -/
theorem highBytes_sign_iff (some : 0 < count) (short : count ≤ wordLength) :
    (highBytes word count).all (· == signByte (lowBytes word count)) = true ↔
      2 * word.toNat < Bytes.capacity count ∨
        2 ^ 257 ≤ 2 * word.toNat + Bytes.capacity count := by
  have small := number_lowBytes_lt word short
  have length := length_lowBytes word short
  have last := highBytes_last word short
  have fits : highPart word count + Bytes.capacity count ≤ 2 ^ 256 := by
    rcases last with ⟨-, full⟩ | ⟨-, room⟩ <;> omega
  rw [signByte_eq (length.symm ▸ some), length, toNat_eq_parts word short]
  split
  · rcases highBytes_zero word count with ⟨filled, zero⟩ | ⟨unfilled, large⟩
    · exact iff_of_true filled (by omega)
    · exact iff_of_false unfilled (by omega)
  · rcases last with ⟨filled, full⟩ | ⟨unfilled, room⟩
    · exact iff_of_true filled (by omega)
    · exact iff_of_false unfilled (by omega)

theorem toInt_range_iff (some : 0 < count) (short : count ≤ wordLength) :
    2 * word.toNat < Bytes.capacity count ∨ 2 ^ 257 ≤ 2 * word.toNat + Bytes.capacity count ↔
      -2 ^ (8 * count - 1) ≤ word.toInt ∧ word.toInt < 2 ^ (8 * count - 1) := by
  have halves : Bytes.capacity count = 2 * 2 ^ (8 * count - 1) := by
    rw [Bytes.capacity_eq, ← Nat.pow_succ', Nat.succ_eq_add_one, Nat.sub_add_cancel (by omega)]
  have bound : 2 ^ (8 * count - 1) ≤ 2 ^ 255 :=
    Nat.pow_le_pow_right (by decide) (by unfold wordLength at short; omega)
  have cast : (2 : Int) ^ (8 * count - 1) = (2 ^ (8 * count - 1) : Nat) := by
    rw [Int.natCast_pow]
    rfl
  have small := word.isLt
  rw [halves, cast, BitVec.toInt_eq_toNat_cond]
  generalize 2 ^ (8 * count - 1) = half at bound ⊢
  split <;> omega

/-! ## Writing numbers -/

theorem number_lowBytes (short : count ≤ wordLength) :
    Bytes.number (lowBytes word count) = word.toNat % Bytes.capacity count := by
  have small := number_lowBytes_lt word short
  rw [toNat_eq_parts word short, highPart, Nat.add_comm, Nat.add_mul_mod_self_right,
    Nat.mod_eq_of_lt small]

theorem lowBytes_eq (short : count ≤ wordLength) :
    lowBytes word count = Bytes.bigEndian count (word.toNat % Bytes.capacity count) := by
  have same := Bytes.bigEndian_number (lowBytes word count)
  rw [length_lowBytes word short, number_lowBytes short] at same
  exact same.symm

theorem writeUint_eq (short : count ≤ wordLength) :
    writeUint (8 * count) word =
      if word.toNat < 2 ^ (8 * count) then .ok (Bytes.bigEndian count word.toNat)
      else .error (.refused (.uintRange word (8 * count))) := by
  have exact : 8 * count / 8 = count := by omega
  unfold writeUint
  rw [exact]
  change (if (highBytes word count).all (· == 0) = true then
    Except.ok (lowBytes word count) else _) = _
  by_cases fits : word.toNat < Bytes.capacity count
  · rw [if_pos ((highBytes_zero_iff short).mpr fits), lowBytes_eq short, Nat.mod_eq_of_lt fits,
      if_pos (Bytes.capacity_eq count ▸ fits)]
  · rw [if_neg (mt (highBytes_zero_iff short).mp fits), if_neg (Bytes.capacity_eq count ▸ fits)]

/-- The low bits of a word are its number in two's complement of fewer bits. -/
theorem toNat_ofInt_toInt (short : count ≤ wordLength) :
    (BitVec.ofInt (8 * count) word.toInt).toNat = word.toNat % Bytes.capacity count := by
  have narrower : 8 * count ≤ 256 := Nat.mul_le_mul_left 8 short
  change (word.signExtend (8 * count)).toNat = _
  rw [BitVec.signExtend_eq_setWidth_of_le word narrower, BitVec.toNat_setWidth, Bytes.capacity_eq]

theorem writeInt_eq (some : 0 < count) (short : count ≤ wordLength) :
    writeInt (8 * count) word =
      if -2 ^ (8 * count - 1) ≤ word.toInt ∧ word.toInt < 2 ^ (8 * count - 1) then
        .ok (Bytes.bigEndian count (BitVec.ofInt (8 * count) word.toInt).toNat)
      else .error (.refused (.intRange word (8 * count))) := by
  have exact : 8 * count / 8 = count := by omega
  have sign := (@highBytes_sign_iff word count some short).trans (toInt_range_iff some short)
  unfold writeInt
  rw [exact]
  change (if (highBytes word count).all (· == signByte (lowBytes word count)) = true then
    Except.ok (lowBytes word count) else _) = _
  by_cases fits : -2 ^ (8 * count - 1) ≤ word.toInt ∧ word.toInt < 2 ^ (8 * count - 1)
  · rw [if_pos (sign.mpr fits), if_pos fits, lowBytes_eq short, toNat_ofInt_toInt short]
  · rw [if_neg (mt sign.mp fits), if_neg fits]

theorem settles_writeUint (short : count ≤ wordLength) :
    Outcome.Settles (writeUint (8 * count) word) (word.toNat < 2 ^ (8 * count)) fun fault =>
      2 ^ (8 * count) ≤ word.toNat ∧ fault = .refused (.uintRange word (8 * count)) := by
  rw [writeUint_eq short]
  exact (Outcome.Settles.ite _ _ _).congr Iff.rfl fun fault => and_congr_left fun _ => Nat.not_lt

theorem settles_writeInt (some : 0 < count) (short : count ≤ wordLength) :
    Outcome.Settles (writeInt (8 * count) word)
      (-2 ^ (8 * count - 1) ≤ word.toInt ∧ word.toInt < 2 ^ (8 * count - 1)) fun fault =>
        (word.toInt < -2 ^ (8 * count - 1) ∨ 2 ^ (8 * count - 1) ≤ word.toInt) ∧
          fault = .refused (.intRange word (8 * count)) := by
  rw [writeInt_eq some short]
  refine (Outcome.Settles.ite _ _ _).congr Iff.rfl fun fault => and_congr_left fun _ => ?_
  rw [Decidable.not_and_iff_not_or_not, Int.not_le, Int.not_lt]

end Number

/-! ## Cells that fit -/

/-- The form of the cells that a kind takes. -/
def form : Kind → String
  | bool => "bool"
  | uint _ => "uint"
  | int _ => "int"
  | fixedBytes _ => "fixed bytes"
  | address => "address"
  | enumeration _ _ => "uint"
  | bytes => "bytes"
  | string => "string"
  | array _ _ => "array"

/-- The cells that a kind takes. -/
inductive Takes : Kind → Cell → Prop
  | bool (value : Bool) : Takes .bool (.bool value)
  | uint {bits : Nat} {word : BitVec 256} : word.toNat < 2 ^ bits → Takes (.uint bits) (.uint word)
  | int {bits : Nat} {word : BitVec 256} : -2 ^ (bits - 1) ≤ word.toInt →
      word.toInt < 2 ^ (bits - 1) → Takes (.int bits) (.int word)
  | fixedBytes {length : Nat} {stored : Bytes} : stored.length = length →
      Takes (.fixedBytes length) (.fixedBytes stored)
  | address (value : BitVec 160) : Takes .address (.address value)
  | enumeration {name : String} {variants : Nat} {word : BitVec 256} : word.toNat < variants →
      Takes (.enumeration name variants) (.uint word)
  | bytes (stored : Bytes) : Takes .bytes (.bytes stored)
  | string (text : String) : Takes .string (.string text)
  | array {element : Kind} {length : Option Nat} {items : List Cell} :
      (∀ count, length = some count → items.length = count) →
      (∀ item ∈ items, Takes element item) → Takes (.array element length) (.array items)

/-- What is wrong with a cell of fixed width: its form, or else a number or length out of range. -/
inductive Misfit : Kind → Cell → CellFault → Prop
  | form {kind : Kind} {cell : Cell} : kind.form ≠ cell.form →
      Misfit kind cell (.mismatch cell.form)
  | uint {bits : Nat} {word : BitVec 256} : 2 ^ bits ≤ word.toNat →
      Misfit (.uint bits) (.uint word) (.refused (.uintRange word bits))
  | int {bits : Nat} {word : BitVec 256} :
      word.toInt < -2 ^ (bits - 1) ∨ 2 ^ (bits - 1) ≤ word.toInt →
      Misfit (.int bits) (.int word) (.refused (.intRange word bits))
  | fixedBytes {length : Nat} {stored : Bytes} : stored.length ≠ length →
      Misfit (.fixedBytes length) (.fixedBytes stored) (.refused (.byteCount length stored.length))
  | enumeration {name : String} {variants : Nat} {word : BitVec 256} : variants ≤ word.toNat →
      Misfit (.enumeration name variants) (.uint word) (.refused (.noVariant word name variants))

variable {kind : Kind} {cell : Cell} {fault : CellFault}

theorem Takes.form_eq (takes : kind.Takes cell) : kind.form = cell.form := by
  cases takes <;> rfl

theorem takes_array_iff {element : Kind} {length : Option Nat} {items : List Cell} :
    (Kind.array element length).Takes (.array items) ↔
      (∀ count, length = some count → items.length = count) ∧ ∀ item ∈ items, element.Takes item := by
  constructor
  · intro takes
    cases takes with
    | array counted each => exact ⟨counted, each⟩
  · exact fun both => .array both.1 both.2

theorem misfit_mismatch_iff (different : kind.form ≠ cell.form) :
    kind.Misfit cell fault ↔ fault = .mismatch cell.form := by
  constructor
  · intro misfit
    cases misfit with
    | form => rfl
    | _ => exact absurd rfl different
  · rintro rfl
    exact .form different

theorem write_mismatch (different : kind.form ≠ cell.form) :
    kind.write cell = .error (.mismatch cell.form) := by
  cases kind <;> cases cell <;> first | rfl | exact absurd rfl different

theorem not_misfit_bool (value : Bool) : ¬Kind.bool.Misfit (.bool value) fault := by
  intro misfit
  cases misfit with
  | form different => exact different rfl

theorem not_misfit_address (value : BitVec 160) : ¬Kind.address.Misfit (.address value) fault := by
  intro misfit
  cases misfit with
  | form different => exact different rfl

theorem misfit_uint_iff {bits : Nat} {word : BitVec 256} :
    (Kind.uint bits).Misfit (.uint word) fault ↔
      2 ^ bits ≤ word.toNat ∧ fault = .refused (.uintRange word bits) := by
  constructor
  · intro misfit
    cases misfit with
    | form different => exact absurd rfl different
    | uint above => exact ⟨above, rfl⟩
  · rintro ⟨above, rfl⟩
    exact .uint above

theorem misfit_int_iff {bits : Nat} {word : BitVec 256} :
    (Kind.int bits).Misfit (.int word) fault ↔
      (word.toInt < -2 ^ (bits - 1) ∨ 2 ^ (bits - 1) ≤ word.toInt) ∧
        fault = .refused (.intRange word bits) := by
  constructor
  · intro misfit
    cases misfit with
    | form different => exact absurd rfl different
    | int outside => exact ⟨outside, rfl⟩
  · rintro ⟨outside, rfl⟩
    exact .int outside

theorem misfit_fixedBytes_iff {length : Nat} {stored : Bytes} :
    (Kind.fixedBytes length).Misfit (.fixedBytes stored) fault ↔
      stored.length ≠ length ∧ fault = .refused (.byteCount length stored.length) := by
  constructor
  · intro misfit
    cases misfit with
    | form different => exact absurd rfl different
    | fixedBytes unequal => exact ⟨unequal, rfl⟩
  · rintro ⟨unequal, rfl⟩
    exact .fixedBytes unequal

theorem misfit_enumeration_iff {name : String} {variants : Nat} {word : BitVec 256} :
    (Kind.enumeration name variants).Misfit (.uint word) fault ↔
      variants ≤ word.toNat ∧ fault = .refused (.noVariant word name variants) := by
  constructor
  · intro misfit
    cases misfit with
    | form different => exact absurd rfl different
    | enumeration unknown => exact ⟨unknown, rfl⟩
  · rintro ⟨unknown, rfl⟩
    exact .enumeration unknown

/-- A cell is written as a kind of fixed width exactly when the kind takes it. -/
theorem Scalar.settles_write (scalar : kind.Scalar) (cell : Cell) :
    Outcome.Settles (kind.write cell) (kind.Takes cell) (kind.Misfit cell) := by
  by_cases same : kind.form = cell.form
  · cases scalar with
    | bool =>
        cases cell with
        | bool value =>
            exact (Outcome.Settles.of_ok _).congr (iff_of_true trivial (.bool value))
              fun fault => iff_of_false id (not_misfit_bool value)
        | _ => simp [form, Cell.form] at same
    | @uint count some few =>
        cases cell with
        | uint word =>
            refine (settles_writeUint few).congr ⟨.uint, ?_⟩ fun fault => misfit_uint_iff.symm
            intro takes
            cases takes
            assumption
        | _ => simp [form, Cell.form] at same
    | @int count some few =>
        cases cell with
        | int word =>
            refine (settles_writeInt some few).congr ⟨fun range => .int range.1 range.2, ?_⟩
              fun fault => misfit_int_iff.symm
            intro takes
            cases takes with
            | int low high => exact ⟨low, high⟩
        | _ => simp [form, Cell.form] at same
    | @fixedBytes length some few =>
        cases cell with
        | fixedBytes stored =>
            refine (Outcome.Settles.ite _ _ _).congr ⟨.fixedBytes, ?_⟩
              fun fault => misfit_fixedBytes_iff.symm
            intro takes
            cases takes
            assumption
        | _ => simp [form, Cell.form] at same
    | address =>
        cases cell with
        | address value =>
            exact (Outcome.Settles.of_ok _).congr (iff_of_true trivial (.address value))
              fun fault => iff_of_false id (not_misfit_address value)
        | _ => simp [form, Cell.form] at same
    | @enumeration name variants some few =>
        cases cell with
        | uint word =>
            refine (Outcome.Settles.ite _ _ _).congr ⟨.enumeration, ?_⟩ fun fault => ?_
            · intro takes
              cases takes
              assumption
            · rw [misfit_enumeration_iff, Nat.not_lt]
        | _ => simp [form, Cell.form] at same
  · rw [write_mismatch same]
    refine (Outcome.Settles.of_error _).congr (iff_of_false id fun takes => same takes.form_eq) ?_
    exact fun fault => (misfit_mismatch_iff same).symm

end Kind

end PackedTables
