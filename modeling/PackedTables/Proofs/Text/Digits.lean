import PackedTables.Proofs.Text.Numeral

/-!
# Written decimal numbers

A number is written in digits, the first of which is no zero unless the number is.  Its digits are
read back as the number, also with zeros in front of them.
-/

namespace PackedTables.Numeral

theorem digits_ne_nil (value : Nat) : digits value ≠ [] := Nat.toDigits_ne_nil

theorem isDigit_of_mem_digits {value : Nat} {c : Char} (member : c ∈ digits value) : IsDigit c :=
  isDigit_iff.mp (Nat.isDigit_of_mem_toDigits (by decide) (Nat.le_refl 10) member)

/-- Reading digits goes on from the number read so far. -/
theorem valueFrom?_eq_ofDigitChars {chars : List Char} (each : ∀ c ∈ chars, IsDigit c)
    (total : Nat) : valueFrom? 10 total chars = some (Nat.ofDigitChars 10 chars total) := by
  induction chars generalizing total with
  | nil => rfl
  | cons c rest ih =>
      obtain ⟨here, there⟩ := List.forall_mem_cons.mp each
      obtain ⟨read, small⟩ := digitValue?_lt_ten_iff.mpr ⟨here, rfl⟩
      rw [valueFrom?, read, Option.bind_eq_bind, Option.bind_some, if_pos small, ih there,
        Nat.ofDigitChars_cons, Nat.mul_comm]

theorem decimal?_digits (value : Nat) : decimal? (digits value) = some value := by
  have nonempty : (digits value).isEmpty = false := by
    rw [List.isEmpty_eq_false_iff]
    exact digits_ne_nil value
  rw [decimal?, natural?, nonempty, if_neg (by decide),
    valueFrom?_eq_ofDigitChars fun c member => isDigit_of_mem_digits member]
  exact congrArg some (Nat.ofDigitChars_toDigits (by decide) (by decide))

theorem isDigit_of_mem_padded {width value : Nat} {c : Char} (member : c ∈ padded width value) :
    IsDigit c := by
  rcases List.mem_append.mp member with zero | digit
  · rw [List.eq_of_mem_replicate zero]
    decide
  · exact isDigit_of_mem_digits digit

theorem decimalValue_zeros_append (count : Nat) (chars : List Char) :
    decimalValue (List.replicate count '0' ++ chars) = decimalValue chars := by
  induction count with
  | zero => rfl
  | succ count ih =>
      rw [List.replicate_succ, List.cons_append, decimalValue_cons, ih, Nat.sub_self, Nat.zero_mul,
        Nat.zero_add]

theorem decimal?_padded (width value : Nat) : decimal? (padded width value) = some value := by
  obtain ⟨-, -, exact⟩ := decimal?_eq_some_iff.mp (decimal?_digits value)
  refine decimal?_eq_some_iff.mpr ⟨List.append_ne_nil_of_right_ne_nil _ (digits_ne_nil value),
    fun c => isDigit_of_mem_padded, ?_⟩
  rw [padded, decimalValue_zeros_append, exact]

theorem length_padded {width value : Nat} (positive : 0 < width) (fits : value < 10 ^ width) :
    (padded width value).length = width := by
  have short : (digits value).length ≤ width := Nat.toDigits_length 10 value width positive fits
  rw [padded, List.length_append, List.length_replicate]
  omega

/-- Only zero is written with a zero in front. -/
theorem digits_head {value : Nat} {rest : List Char} (written : digits value = '0' :: rest) :
    rest = [] := by
  induction value using Nat.strongRecOn generalizing rest with
  | ind value ih =>
      rw [digits, Nat.toDigits_eq_if (by decide)] at written
      split at written
      · exact (List.cons.inj written).2.symm
      · rename_i large
        have smaller : value / 10 < value := Nat.div_lt_self (by omega) (by decide)
        cases front : digits (value / 10) with
        | nil => exact absurd front (digits_ne_nil _)
        | cons c others =>
            have same := written
            rw [show Nat.toDigits 10 (value / 10) = c :: others from front] at same
            obtain ⟨rfl, -⟩ := List.cons.inj same
            -- A number of one digit that is written as zero is zero.
            obtain rfl := ih _ smaller front
            have zero := decimal?_digits (value / 10)
            rw [front] at zero
            have : 0 = value / 10 := Option.some.inj zero
            omega

end PackedTables.Numeral
