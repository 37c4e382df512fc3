/-!
# Byte strings

Keys, values, identifiers and layout words are lists of bytes.  A number occupies a fixed count
of bytes, most significant first.  Writing keeps the number modulo their capacity
(`number_bigEndian`), and reading loses nothing (`bigEndian_number`).
-/

namespace PackedTables

abbrev Bytes := List UInt8

namespace Bytes

/-- The low `width` bytes of a number, most significant first. -/
def bigEndian : Nat → Nat → Bytes
  | 0, _ => []
  | width + 1, value => bigEndian width (value / 256) ++ [UInt8.ofNat value]

/-- How many numbers a count of bytes can hold. -/
def capacity : Nat → Nat
  | 0 => 1
  | width + 1 => 256 * capacity width

/-- The number that a byte string denotes, most significant byte first. -/
def number (bytes : Bytes) : Nat :=
  bytes.foldl (fun total byte => total * 256 + byte.toNat) 0

/-- The length of byte strings of some lengths, one after another. -/
def joinedLength : List Nat → Nat
  | [] => 0
  | length :: rest => length + joinedLength rest

/-- The `width` bytes from `start` on, when all of them exist. -/
def slice? (bytes : Bytes) (start width : Nat) : Option Bytes :=
  if start + width ≤ bytes.length then some ((bytes.drop start).take width) else none

/-- Other bytes from `start` on, as many as fit in. -/
def overwrite (bytes : Bytes) (start : Nat) (part : Bytes) : Bytes :=
  bytes.take start ++ part ++ bytes.drop (start + part.length)

/-- Fill up with zero bytes on the right. -/
def padRight (width : Nat) (bytes : Bytes) : Bytes :=
  bytes ++ List.replicate (width - bytes.length) 0

/-- Drop the zero bytes at the end. -/
def trimRight (bytes : Bytes) : Bytes :=
  (bytes.reverse.dropWhile (· == 0)).reverse

/-- Consecutive pieces of `width` bytes; the last one may be shorter. -/
def chunks (width : Nat) (positive : 0 < width) (bytes : Bytes) : List Bytes :=
  if bytes.isEmpty then [] else bytes.take width :: chunks width positive (bytes.drop width)
termination_by bytes.length
decreasing_by
  rename_i nonempty
  have := List.length_pos_iff.mpr (by simpa using nonempty)
  simp only [List.length_drop]
  omega

@[simp] theorem length_bigEndian (width value : Nat) : (bigEndian width value).length = width := by
  induction width generalizing value with
  | zero => rfl
  | succ width ih => simp [bigEndian, ih]

@[simp] theorem number_nil : number [] = 0 := rfl

theorem number_append_singleton (bytes : Bytes) (byte : UInt8) :
    number (bytes ++ [byte]) = number bytes * 256 + byte.toNat := by
  simp [number]

theorem number_bigEndian (width value : Nat) :
    number (bigEndian width value) = value % capacity width := by
  induction width generalizing value with
  | zero => simp [bigEndian, capacity, Nat.mod_one]
  | succ width ih =>
      rw [bigEndian, number_append_singleton, ih, capacity, Nat.mod_mul]
      have low : (UInt8.ofNat value).toNat = value % 256 := by simp
      omega

theorem number_lt (bytes : Bytes) : number bytes < capacity bytes.length := by
  suffices bound : ∀ reversed : Bytes, number reversed.reverse < capacity reversed.length by
    simpa using bound bytes.reverse
  intro reversed
  induction reversed with
  | nil => simp [capacity]
  | cons byte rest ih =>
      rw [List.reverse_cons, number_append_singleton, List.length_cons, capacity]
      have := byte.toNat_lt
      omega

theorem bigEndian_number (bytes : Bytes) : bigEndian bytes.length (number bytes) = bytes := by
  suffices exact : ∀ reversed : Bytes,
      bigEndian reversed.length (number reversed.reverse) = reversed.reverse by
    simpa using exact bytes.reverse
  intro reversed
  induction reversed with
  | nil => rfl
  | cons byte rest ih =>
      have small := byte.toNat_lt
      rw [List.reverse_cons, number_append_singleton, List.length_cons, bigEndian,
        show (number rest.reverse * 256 + byte.toNat) / 256 = number rest.reverse by omega, ih]
      congr 2
      apply UInt8.toNat_inj.mp
      simp only [UInt8.toNat_ofNat']
      omega

theorem length_flatten (parts : List Bytes) :
    parts.flatten.length = joinedLength (parts.map List.length) := by
  induction parts with
  | nil => rfl
  | cons part rest ih => simp [joinedLength, ih]

theorem slice?_eq_some {bytes : Bytes} {start width : Nat} (inside : start + width ≤ bytes.length) :
    slice? bytes start width = some ((bytes.drop start).take width) :=
  if_pos inside

theorem length_of_slice? {bytes part : Bytes} {start width : Nat}
    (found : slice? bytes start width = some part) : part.length = width := by
  unfold slice? at found
  split at found
  · injection found with equal
    subst equal
    simp only [List.length_take, List.length_drop]
    omega
  · contradiction

theorem flatten_chunks (width : Nat) (positive : 0 < width) (bytes : Bytes) :
    (chunks width positive bytes).flatten = bytes := by
  fun_induction chunks width positive bytes with
  | case1 bytes empty => simpa using (List.isEmpty_iff.mp empty).symm
  | case2 bytes nonempty ih => simp [ih]

end Bytes

end PackedTables
