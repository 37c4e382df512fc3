import Mathlib.Data.Nat.Digits.Defs
import PackedTables.Text.Numeral

/-!
# Decimal numbers

Which texts are read as decimal numbers, and as which.  A text is read exactly when it has a digit
and nothing but digits; they count as digits to the base ten, the last one least.
-/

namespace PackedTables.Numeral

def IsDigit (c : Char) : Prop := '0' ≤ c ∧ c ≤ '9'

theorem isDigit_iff {c : Char} : c.isDigit = true ↔ IsDigit c := by
  change (decide ('0' ≤ c) && decide (c ≤ '9')) = true ↔ _
  rw [Bool.and_eq_true, decide_eq_true_iff, decide_eq_true_iff, IsDigit]

instance (c : Char) : Decidable (IsDigit c) := decidable_of_iff _ isDigit_iff

/-- The number that a run of decimal digits is written for. -/
def decimalValue (digits : List Char) : Nat :=
  Nat.ofDigits 10 (digits.reverse.map fun c => c.toNat - '0'.toNat)

theorem decimalValue_cons (c : Char) (rest : List Char) :
    decimalValue (c :: rest) = (c.toNat - '0'.toNat) * 10 ^ rest.length + decimalValue rest := by
  unfold decimalValue
  rw [List.reverse_cons, List.map_append, Nat.ofDigits_append, List.length_map, List.length_reverse,
    List.map_singleton, Nat.ofDigits_singleton, Nat.mul_comm, Nat.add_comm]

/-- Below ten a digit stands for its distance from zero. -/
theorem digitValue?_lt_ten_iff {c : Char} {value : Nat} :
    (digitValue? c = some value ∧ value < 10) ↔ IsDigit c ∧ c.toNat - '0'.toNat = value := by
  unfold digitValue? IsDigit
  have zero : '0'.toNat = 48 := rfl
  have nine : '9'.toNat = 57 := rfl
  have small : 'a'.toNat = 97 := rfl
  have large : 'A'.toNat = 65 := rfl
  simp only [Char.le_def, UInt32.le_iff_toNat_le, Char.toNat_val]
  split
  · simp only [Option.some.injEq]
    omega
  · split
    · simp only [Option.some.injEq]
      omega
    · split
      · simp only [Option.some.injEq]
        omega
      · simp only [reduceCtorEq, false_and, false_iff]
        omega

theorem valueFrom?_eq_some_iff {total value : Nat} {digits : List Char} :
    valueFrom? 10 total digits = some value ↔
      (∀ c ∈ digits, IsDigit c) ∧ total * 10 ^ digits.length + decimalValue digits = value := by
  induction digits generalizing total with
  | nil => simp [valueFrom?, decimalValue]
  | cons c rest ih =>
      have value_cons : total * 10 ^ (c :: rest).length + decimalValue (c :: rest) =
          (total * 10 + (c.toNat - '0'.toNat)) * 10 ^ rest.length + decimalValue rest := by
        rw [decimalValue_cons, List.length_cons, Nat.pow_succ]
        ring
      rw [value_cons, List.forall_mem_cons, valueFrom?, Option.bind_eq_bind,
        Option.bind_eq_some_iff]
      constructor
      · rintro ⟨digit, read, continued⟩
        split at continued
        · rename_i small
          obtain ⟨here, rfl⟩ := digitValue?_lt_ten_iff.mp ⟨read, small⟩
          obtain ⟨there, rfl⟩ := ih.mp continued
          exact ⟨⟨here, there⟩, rfl⟩
        · cases continued
      · rintro ⟨⟨here, there⟩, rfl⟩
        obtain ⟨read, small⟩ := digitValue?_lt_ten_iff.mpr ⟨here, rfl⟩
        refine ⟨_, read, ?_⟩
        rw [if_pos small]
        exact ih.mpr ⟨there, rfl⟩

theorem decimal?_eq_some_iff {digits : List Char} {value : Nat} :
    decimal? digits = some value ↔
      digits ≠ [] ∧ (∀ c ∈ digits, IsDigit c) ∧ decimalValue digits = value := by
  unfold decimal? natural?
  cases digits with
  | nil => simp
  | cons c rest => simp [valueFrom?_eq_some_iff]

theorem not_isDigit_plus : ¬IsDigit '+' := by decide

theorem unsigned?_plus (greatest : Nat) (digits : List Char) :
    unsigned? greatest ('+' :: digits) = (decimal? digits).filter (· ≤ greatest) := rfl

theorem unsigned?_of_isDigit (greatest : Nat) {digits : List Char}
    (each : ∀ c ∈ digits, IsDigit c) :
    unsigned? greatest digits = (decimal? digits).filter (· ≤ greatest) := by
  unfold unsigned?
  split
  · exact absurd (each '+' List.mem_cons_self) not_isDigit_plus
  · rfl

/-- Only a plus can stand before the digits. -/
theorem unsigned?_eq_some_iff {greatest value : Nat} {chars : List Char} :
    unsigned? greatest chars = some value ↔
      ∃ sign digits, chars = sign ++ digits ∧ (sign = [] ∨ sign = ['+']) ∧ digits ≠ [] ∧
        (∀ c ∈ digits, IsDigit c) ∧ decimalValue digits = value ∧ value ≤ greatest := by
  constructor
  · intro read
    unfold unsigned? at read
    obtain ⟨read, bounded⟩ := Option.filter_eq_some_iff.mp read
    split at read
    · obtain ⟨nonempty, each, exact⟩ := decimal?_eq_some_iff.mp read
      exact ⟨['+'], _, rfl, .inr rfl, nonempty, each, exact, by simpa using bounded⟩
    · obtain ⟨nonempty, each, exact⟩ := decimal?_eq_some_iff.mp read
      exact ⟨[], _, rfl, .inl rfl, nonempty, each, exact, by simpa using bounded⟩
  · rintro ⟨sign, digits, rfl, signed, nonempty, each, exact, bounded⟩
    have read := decimal?_eq_some_iff.mpr ⟨nonempty, each, exact⟩
    have kept : (decimal? digits).filter (· ≤ greatest) = some value :=
      Option.filter_eq_some_iff.mpr ⟨read, decide_eq_true bounded⟩
    rcases signed with rfl | rfl
    · exact (unsigned?_of_isDigit greatest each).trans kept
    · exact (unsigned?_plus greatest digits).trans kept

end PackedTables.Numeral
