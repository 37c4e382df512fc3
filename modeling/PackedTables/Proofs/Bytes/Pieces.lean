import Mathlib.Algebra.GroupWithZero.Nat
import PackedTables.Bytes

/-!
# Cutting byte strings

A stretch of a byte string is what stands between a front and a back.  Pieces of one width, joined,
are cut again into the same pieces, and a number does not change with zero bytes in front of it.
Zero bytes at the end are lost when a byte string is filled up.
-/

namespace PackedTables.Bytes

theorem slice?_eq_some_iff {bytes part : Bytes} {start width : Nat} :
    slice? bytes start width = some part ↔
      ∃ front back, bytes = front ++ part ++ back ∧ front.length = start ∧ part.length = width := by
  unfold slice?
  constructor
  · intro found
    split at found
    · rename_i inside
      obtain rfl := Option.some.inj found
      refine ⟨bytes.take start, (bytes.drop start).drop width, ?_, ?_, ?_⟩
      · rw [List.append_assoc, List.take_append_drop, List.take_append_drop]
      · rw [List.length_take]
        omega
      · rw [List.length_take, List.length_drop]
        omega
    · cases found
  · rintro ⟨front, back, rfl, rfl, rfl⟩
    rw [if_pos (by simp)]
    simp

/-- A stretch behind a front is the front of what is left. -/
theorem slice?_append_eq_some_iff {front rest part : Bytes} {width : Nat} :
    slice? (front ++ rest) front.length width = some part ↔
      ∃ back, rest = part ++ back ∧ part.length = width := by
  rw [slice?_eq_some_iff]
  constructor
  · rintro ⟨before, back, placed, same, exact⟩
    rw [List.append_assoc] at placed
    exact ⟨back, (List.append_inj placed same.symm).2, exact⟩
  · rintro ⟨back, rfl, exact⟩
    exact ⟨front, back, (List.append_assoc _ _ _).symm, rfl, exact⟩

theorem joinedLength_eq_sum (lengths : List Nat) : joinedLength lengths = lengths.sum := by
  induction lengths with
  | nil => rfl
  | cons length rest ih => rw [joinedLength, ih, List.sum_cons]

theorem joinedLength_le {lengths : List Nat} {bound : Nat}
    (each : ∀ length ∈ lengths, length ≤ bound) :
    joinedLength lengths ≤ lengths.length * bound := by
  induction lengths with
  | nil => simp [joinedLength]
  | cons length rest ih =>
      have here := each length List.mem_cons_self
      have there := ih fun other member => each other (List.mem_cons_of_mem _ member)
      rw [joinedLength, List.length_cons, Nat.add_mul]
      omega

/-- What stands before a length and the length itself are part of the total. -/
theorem joinedLength_take_add_le {lengths : List Nat} {place length : Nat}
    (found : lengths[place]? = some length) :
    joinedLength (lengths.take place) + length ≤ joinedLength lengths := by
  induction lengths generalizing place with
  | nil => simp at found
  | cons first rest ih =>
      cases place with
      | zero =>
          obtain rfl := Option.some.inj found
          rw [List.take_zero, joinedLength, joinedLength]
          omega
      | succ place =>
          have there := ih found
          rw [List.take_succ_cons, joinedLength, joinedLength]
          omega

/-! ## Overwriting -/

theorem overwrite_append {front old part : Bytes} {start : Nat} (placed : front.length = start)
    (exact : old.length = part.length) (back : Bytes) :
    overwrite (front ++ (old ++ back)) start part = front ++ (part ++ back) := by
  rw [overwrite, ← placed, List.take_left, ← List.drop_drop, List.drop_left, ← exact,
    List.drop_left, List.append_assoc]

/-- What is written up to the end leaves the bytes before it. -/
theorem overwrite_end {bytes part : Bytes} {start : Nat}
    (exact : start + part.length = bytes.length) :
    overwrite bytes start part = bytes.take start ++ part := by
  rw [overwrite, exact, List.drop_length, List.append_nil]

/-- The last bytes of a number are those of a shorter form of it. -/
theorem drop_bigEndian (count width value : Nat) :
    (bigEndian (count + width) value).drop count = bigEndian width value := by
  induction width generalizing value with
  | zero => simp [bigEndian]
  | succ width ih =>
      rw [← Nat.add_assoc, bigEndian, bigEndian, List.drop_append_of_le_length, ih]
      rw [length_bigEndian]
      exact Nat.le_add_right count width

/-! ## Pieces of one width -/

theorem chunks_nil {width : Nat} (positive : 0 < width) : chunks width positive [] = [] := by
  rw [chunks]
  rfl

theorem chunks_append {width : Nat} (positive : 0 < width) {part : Bytes} (rest : Bytes)
    (exact : part.length = width) :
    chunks width positive (part ++ rest) = part :: chunks width positive rest := by
  have nonempty : (part ++ rest).isEmpty = false := by
    cases part with
    | nil =>
        rw [List.length_nil] at exact
        omega
    | cons byte others => rfl
  rw [chunks, nonempty, if_neg (by decide), List.take_left' exact, List.drop_left' exact]

theorem chunks_flatten {width : Nat} (positive : 0 < width) {parts : List Bytes}
    (exact : ∀ part ∈ parts, part.length = width) :
    chunks width positive parts.flatten = parts := by
  induction parts with
  | nil => exact chunks_nil positive
  | cons part rest ih =>
      rw [List.flatten_cons, chunks_append positive _ (exact part List.mem_cons_self),
        ih fun other member => exact other (List.mem_cons_of_mem _ member)]

theorem length_of_mem_chunks {width : Nat} (positive : 0 < width) {bytes : Bytes}
    (whole : bytes.length % width = 0) :
    ∀ part ∈ chunks width positive bytes, part.length = width := by
  fun_induction chunks width positive bytes with
  | case1 bytes empty => simp
  | case2 bytes nonempty ih =>
      have some : 0 < bytes.length := List.length_pos_iff.mpr (by simpa using nonempty)
      have enough : width ≤ bytes.length := Nat.le_of_dvd some (Nat.dvd_of_mod_eq_zero whole)
      have remaining : (bytes.drop width).length % width = 0 := by
        rw [List.length_drop, ← Nat.mod_eq_sub_mod enough]
        exact whole
      intro part member
      rcases List.mem_cons.mp member with rfl | inRest
      · rw [List.length_take]
        omega
      · exact ih remaining part inRest

theorem length_flatten_of_exact {width : Nat} {parts : List Bytes}
    (exact : ∀ part ∈ parts, part.length = width) :
    parts.flatten.length = parts.length * width := by
  induction parts with
  | nil => simp
  | cons part rest ih =>
      rw [List.flatten_cons, List.length_append, exact part List.mem_cons_self,
        ih fun other member => exact other (List.mem_cons_of_mem _ member), List.length_cons,
        Nat.add_mul]
      omega

theorem length_chunks {width : Nat} (positive : 0 < width) {bytes : Bytes}
    (whole : bytes.length % width = 0) :
    (chunks width positive bytes).length = bytes.length / width := by
  have total := length_flatten_of_exact (length_of_mem_chunks positive whole)
  rw [flatten_chunks] at total
  rw [total, Nat.mul_div_cancel _ positive]

/-! ## Numbers with bytes in front -/

theorem number_append (front bytes : Bytes) :
    number (front ++ bytes) = number front * capacity bytes.length + number bytes := by
  suffices general : ∀ reversed : Bytes,
      number (front ++ reversed.reverse) =
        number front * capacity reversed.length + number reversed.reverse by
    simpa using general bytes.reverse
  intro reversed
  induction reversed with
  | nil => simp [capacity]
  | cons byte rest ih =>
      rw [List.reverse_cons, ← List.append_assoc, number_append_singleton, ih,
        number_append_singleton, List.length_cons, capacity, Nat.add_mul, Nat.mul_assoc,
        Nat.mul_comm 256, Nat.add_assoc]

theorem number_cons (byte : UInt8) (bytes : Bytes) :
    number (byte :: bytes) = byte.toNat * capacity bytes.length + number bytes := by
  have parts := number_append [byte] bytes
  simpa [number] using parts

theorem capacity_eq (count : Nat) : capacity count = 2 ^ (8 * count) := by
  induction count with
  | zero => rfl
  | succ count ih => rw [capacity, ih, Nat.mul_succ, Nat.pow_add, Nat.mul_comm]

theorem number_injective {first second : Bytes} (lengths : first.length = second.length)
    (same : number first = number second) : first = second := by
  rw [← bigEndian_number first, lengths, same, bigEndian_number]

/-! ## Repeated bytes -/

/-- A byte string repeats a byte when its number is that of the repeated byte. -/
theorem all_eq_iff {bytes : Bytes} {fill : UInt8} :
    bytes.all (· == fill) = true ↔ number bytes = number (List.replicate bytes.length fill) := by
  constructor
  · intro filled
    exact congrArg number (List.eq_replicate_iff.mpr ⟨rfl, by simpa using filled⟩)
  · intro same
    have repeated := number_injective List.length_replicate.symm same
    simpa using (List.eq_replicate_iff.mp repeated).2

theorem number_replicate_last (count : Nat) :
    number (List.replicate count 255) + 1 = capacity count := by
  induction count with
  | zero => rfl
  | succ count ih =>
      rw [List.replicate_succ', number_append_singleton, capacity, ← ih,
        show (255 : UInt8).toNat = 255 from rfl]
      omega

theorem number_replicate_zero (count : Nat) : number (List.replicate count 0) = 0 := by
  induction count with
  | zero => rfl
  | succ count ih => rw [List.replicate_succ', number_append_singleton, ih]; rfl

@[simp] theorem number_zeros_append (count : Nat) (bytes : Bytes) :
    number (List.replicate count 0 ++ bytes) = number bytes := by
  rw [number_append, number_replicate_zero]
  omega

theorem bigEndian_zero (width : Nat) : bigEndian width 0 = List.replicate width 0 := by
  have whole := bigEndian_number (List.replicate width 0)
  rwa [List.length_replicate, number_replicate_zero] at whole

/-! ## Filling -/

theorem trimRight_append_replicate (bytes : Bytes) (count : Nat) :
    trimRight (bytes ++ List.replicate count 0) = trimRight bytes := by
  rw [trimRight, List.reverse_append, List.reverse_replicate,
    List.dropWhile_append_of_pos (by simp), trimRight]

/-- What is dropped at the end is a run of zero bytes. -/
theorem exists_trimmed (bytes : Bytes) :
    ∃ count, bytes = trimRight bytes ++ List.replicate count 0 := by
  have zeros : (bytes.reverse.takeWhile (· == 0)).reverse =
      List.replicate (bytes.reverse.takeWhile (· == 0)).length 0 := by
    refine List.eq_replicate_iff.mpr ⟨List.length_reverse, fun byte member => ?_⟩
    have zero := List.all_eq_true.mp List.all_takeWhile byte (List.mem_reverse.mp member)
    exact beq_iff_eq.mp zero
  refine ⟨(bytes.reverse.takeWhile (· == 0)).length, ?_⟩
  rw [← zeros, trimRight, ← List.reverse_append, List.takeWhile_append_dropWhile,
    List.reverse_reverse]

theorem trimRight_padRight (width : Nat) (bytes : Bytes) :
    trimRight (padRight width bytes) = trimRight bytes :=
  trimRight_append_replicate bytes _

theorem padRight_trimRight {width : Nat} {bytes : Bytes} (fits : bytes.length ≤ width) :
    padRight width (trimRight bytes) = padRight width bytes := by
  obtain ⟨count, whole⟩ := exists_trimmed bytes
  have length := congrArg List.length whole
  rw [List.length_append, List.length_replicate] at length
  have filling : width - (trimRight bytes).length = count + (width - bytes.length) := by omega
  rw [padRight, padRight, filling, ← List.replicate_append_replicate, ← List.append_assoc, ← whole]

/-- Filled up, byte strings differ exactly when they differ before the zero bytes at their ends. -/
theorem padRight_eq_iff {width : Nat} {bytes other : Bytes} (fits : bytes.length ≤ width)
    (fits' : other.length ≤ width) :
    padRight width bytes = padRight width other ↔ trimRight bytes = trimRight other := by
  constructor
  · intro same
    rw [← trimRight_padRight width bytes, same, trimRight_padRight]
  · intro same
    rw [← padRight_trimRight fits, same, padRight_trimRight fits']

theorem trimRight_eq_self {bytes : Bytes} (nonzero : ∀ byte ∈ bytes, byte ≠ 0) :
    trimRight bytes = bytes := by
  obtain ⟨count, whole⟩ := exists_trimmed bytes
  cases count with
  | zero => rw [List.replicate_zero, List.append_nil] at whole; exact whole.symm
  | succ count =>
      have last : (0 : UInt8) ∈ bytes := by
        rw [whole]
        simp
      exact absurd rfl (nonzero 0 last)

end PackedTables.Bytes
