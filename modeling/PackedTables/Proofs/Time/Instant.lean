import PackedTables.Proofs.Text.Digits
import PackedTables.Time.Instant

/-!
# Reading instants back

The text of an instant is read as that instant.  Each number is followed by a character that is no
digit, or has as many digits as may be read there, and no blank stands between them.
-/

namespace PackedTables

namespace Instant

variable {value width : Nat} {digits rest : List Char}

/-! ## Numbers -/

theorem isBlank_of_isDigit {c : Char} (digit : Numeral.IsDigit c) : isBlank c = false := by
  obtain ⟨least, greatest⟩ := digit
  have least : 48 ≤ c.toNat := UInt32.le_iff_toNat_le.mp (Char.le_def.mp least)
  have greatest : c.toNat ≤ 57 := UInt32.le_iff_toNat_le.mp (Char.le_def.mp greatest)
  simp only [isBlank, Blank.ranges, List.any_cons, List.any_nil, Bool.or_false,
    Bool.or_eq_false_iff, Bool.and_eq_false_iff, decide_eq_false_iff_not]
  omega

theorem skipBlanks_cons {c : Char} (visible : isBlank c = false) (rest : List Char) :
    skipBlanks (c :: rest) = c :: rest := by
  rw [skipBlanks, List.dropWhile_cons, visible, if_neg (by decide)]

theorem exists_padded_cons (width value : Nat) :
    ∃ c others, Numeral.padded width value = c :: others ∧ Numeral.IsDigit c := by
  have nonempty : Numeral.padded width value ≠ [] :=
    List.append_ne_nil_of_right_ne_nil _ (Numeral.digits_ne_nil value)
  obtain ⟨c, others, whole⟩ := List.exists_cons_of_ne_nil nonempty
  exact ⟨c, others, whole, Numeral.isDigit_of_mem_padded (whole ▸ List.mem_cons_self)⟩

/-- Digits end where no more may be read, or where no digit follows. -/
theorem readDigits_append (each : ∀ c ∈ digits, Numeral.IsDigit c)
    (read : Numeral.decimal? digits = some value) (fits : digits.length ≤ width)
    (ends : digits.length = width ∨ rest.takeWhile Char.isDigit = []) :
    readDigits width (digits ++ rest) = some (value, rest) := by
  have stop : (rest.take (width - digits.length)).takeWhile Char.isDigit = [] := by
    rcases ends with full | other
    · rw [full, Nat.sub_self]
      rfl
    · cases rest with
      | nil => rw [List.take_nil]; rfl
      | cons c others =>
          cases width - digits.length with
          | zero => rfl
          | succ count =>
              have strange : c.isDigit = false := by
                by_contra digit
                simp [List.takeWhile_cons, digit] at other
              rw [List.take_succ_cons, List.takeWhile_cons, strange, if_neg (by decide)]
  have taken : ((digits ++ rest).take width).takeWhile Char.isDigit = digits := by
    rw [List.take_append, List.take_of_length_le fits,
      List.takeWhile_append_of_pos fun c member => Numeral.isDigit_iff.mpr (each c member), stop,
      List.append_nil]
  rw [readDigits, taken, read]
  exact congrArg (fun left => some (value, left)) List.drop_left

theorem readDigits_padded (positive : 0 < width) (fits : value < 10 ^ width) (rest : List Char) :
    readDigits width (Numeral.padded width value ++ rest) = some (value, rest) := by
  have exact := Numeral.length_padded positive fits
  exact readDigits_append (fun c => Numeral.isDigit_of_mem_padded) (Numeral.decimal?_padded _ _)
    (Nat.le_of_eq exact) (.inl exact)

theorem readNumber_padded (positive : 0 < width) (fits : value < 10 ^ width) (rest : List Char) :
    readNumber width (Numeral.padded width value ++ rest) = some (value, rest) := by
  rw [← readDigits_padded positive fits rest, readNumber]
  obtain ⟨c, others, whole, digit⟩ := exists_padded_cons width value
  rw [whole, List.cons_append, skipBlanks_cons (isBlank_of_isDigit digit)]

/-! ## Dates -/

theorem readYear_yearChars (year : Int) (rest : List Char) :
    readYear (yearChars year ++ '-' :: rest) = some (year, '-' :: rest) := by
  unfold yearChars
  split
  · rename_i plain
    have fits : year.toNat < 10 ^ 4 := by omega
    have read := readDigits_padded (by decide) fits ('-' :: rest)
    obtain ⟨c, others, whole, digit⟩ := exists_padded_cons 4 year.toNat
    have minus : c ≠ '-' := by rintro rfl; exact absurd digit (by decide)
    have plus : c ≠ '+' := by rintro rfl; exact absurd digit (by decide)
    rw [whole, List.cons_append] at read ⊢
    rw [readYear, skipBlanks_cons (isBlank_of_isDigit digit)]
    split
    · rename_i same
      exact absurd (List.cons.inj same).1 minus
    · rename_i same
      exact absurd (List.cons.inj same).1 plus
    · rw [read, Option.map_some, Int.toNat_of_nonneg plain.1]
  · rename_i outside
    have read : readDigits (Numeral.padded 4 year.natAbs ++ '-' :: rest).length
        (Numeral.padded 4 year.natAbs ++ '-' :: rest) = some (year.natAbs, '-' :: rest) :=
      readDigits_append (fun c => Numeral.isDigit_of_mem_padded) (Numeral.decimal?_padded _ _)
        (by rw [List.length_append]; omega) (.inr rfl)
    rw [List.cons_append, readYear]
    by_cases negative : year < 0
    · rw [if_pos negative, skipBlanks_cons (by decide)]
      change (readDigits _ _).map _ = _
      rw [read, Option.map_some, Int.ofNat_natAbs_of_nonpos (Int.le_of_lt negative), Int.neg_neg]
    · rw [if_neg negative, skipBlanks_cons (by decide)]
      change (readDigits _ _).map _ = _
      rw [read, Option.map_some, Int.natAbs_of_nonneg (Int.not_lt.mp negative)]

theorem monthLength_le (year : Int) (month : Nat) : Date.monthLength year month ≤ 31 := by
  unfold Date.monthLength
  split
  · split <;> decide
  · split <;> decide

theorem readDate_dateChars (date : Date) (rest : List Char) :
    readDate (dateChars date ++ rest) = some (date, rest) := by
  obtain ⟨-, ⟨-, month⟩, -, day⟩ := date.real
  have day : date.day ≤ 31 := Nat.le_trans day (monthLength_le _ _)
  have written : dateChars date ++ rest = yearChars date.year ++ '-' ::
      (Numeral.padded 2 date.month ++ '-' :: (Numeral.padded 2 date.day ++ rest)) := by
    simp only [dateChars, List.append_assoc, List.cons_append]
  rw [written, readDate, readYear_yearChars]
  simp only [Option.bind_eq_bind, Option.bind_some, Option.pure_def,
    skipBlanks_cons (show isBlank '-' = false by decide), expect, if_true,
    readNumber_padded (show 0 < 2 by decide) (show date.month < 10 ^ 2 by omega),
    readNumber_padded (show 0 < 2 by decide) (show date.day < 10 ^ 2 by omega),
    Date.make?_eq_some]

/-! ## Times of day -/

theorem readFraction_fractionChars {nanosecond : Nat} (real : nanosecond < nanosecondsOfSecond) :
    readFraction (fractionChars nanosecond ++ ['Z']) = some (nanosecond, ['Z']) := by
  have small : nanosecond < 1000000000 := real
  -- So many digits are read, and they stand for as many nanoseconds with zeros put behind them.
  have scaled (places count : Nat) (positive : 0 < places) (few : places ≤ 9)
      (fits : count < 10 ^ places) :
      readFraction ('.' :: Numeral.padded places count ++ ['Z']) =
        some (count * Numeral.tenTo (9 - places), ['Z']) := by
    have exact := Numeral.length_padded positive fits
    have read : readDigits 9 (Numeral.padded places count ++ ['Z']) = some (count, ['Z']) :=
      readDigits_append (fun c => Numeral.isDigit_of_mem_padded) (Numeral.decimal?_padded _ _)
        (by omega) (.inr rfl)
    have left : ['Z'].dropWhile Char.isDigit = ['Z'] := rfl
    rw [List.cons_append, readFraction]
    simp only [read, Option.bind_eq_bind, Option.bind_some, Option.pure_def, left,
      List.length_append, exact, List.length_singleton, Nat.add_sub_cancel]
  unfold fractionChars
  split
  · rename_i none
    rw [none]
    rfl
  · split
    · rename_i whole
      rw [scaled 3 _ (by decide) (by decide) (by omega)]
      change some (nanosecond / 1000000 * 1000000, _) = _
      rw [Nat.div_mul_cancel (Nat.dvd_of_mod_eq_zero whole)]
    · split
      · rename_i whole
        rw [scaled 6 _ (by decide) (by decide) (by omega)]
        change some (nanosecond / 1000 * 1000, _) = _
        rw [Nat.div_mul_cancel (Nat.dvd_of_mod_eq_zero whole)]
      · rw [scaled 9 _ (by decide) (by decide) (by omega)]
        exact congrArg (fun count => some (count, ['Z'])) (Nat.mul_one nanosecond)

theorem readClock_clockChars (clock : Clock) :
    readClock (clockChars clock ++ ['Z']) = some (clock, ['Z']) := by
  obtain ⟨hour, minute, second, nanosecond⟩ := clock.real
  have written : clockChars clock ++ ['Z'] = Numeral.padded 2 clock.hour ++ ':' ::
      (Numeral.padded 2 clock.minute ++ ':' :: (Numeral.padded 2 clock.second ++
        (fractionChars clock.nanosecond ++ ['Z']))) := by
    simp only [clockChars, List.append_assoc, List.cons_append]
  have made : Clock.make? clock.hour clock.minute clock.second clock.nanosecond = some clock :=
    dif_pos clock.real
  rw [written, readClock, readNumber_padded (by decide) (by omega)]
  simp only [Option.bind_eq_bind, Option.bind_some, Option.pure_def,
    skipBlanks_cons (show isBlank ':' = false by decide), expect, if_true,
    readNumber_padded (show 0 < 2 by decide) (show clock.minute < 10 ^ 2 by omega),
    readNumber_padded (show 0 < 2 by decide) (show clock.second < 10 ^ 2 by omega),
    readFraction_fractionChars nanosecond, made]

theorem fromOffset?_zero (instant : Instant) : fromOffset? instant 0 = some instant := by
  obtain ⟨date, clock⟩ := instant
  obtain ⟨hour, minute, second, nanosecond⟩ := clock.real
  have same : clock.atMinute? clock.minuteOfDay = some clock := by
    have hours : clock.minuteOfDay / 60 = clock.hour := by
      rw [Clock.minuteOfDay]
      omega
    have minutes : clock.minuteOfDay % 60 = clock.minute := by
      rw [Clock.minuteOfDay]
      omega
    rw [Clock.atMinute?, hours, minutes]
    exact dif_pos clock.real
  have below : clock.minuteOfDay < minutesOfDay := by
    rw [Clock.minuteOfDay, minutesOfDay]
    omega
  rw [fromOffset?, Int.sub_zero]
  dsimp only
  rw [if_neg (by omega), if_pos (by omega), Int.toNat_natCast, same]
  rfl

/-- The text of an instant is read as that instant. -/
theorem read?_text (instant : Instant) : read? instant.text = some instant := by
  have written : instant.text.toList =
      dateChars instant.date ++ 'T' :: (clockChars instant.clock ++ ['Z']) := by
    rw [text, String.toList_ofList, List.append_assoc, List.cons_append]
  have separated (rest : List Char) : readSeparator ('T' :: rest) = some rest := by
    rw [readSeparator, if_pos (.inr (.inl rfl))]
  have zone : readZone (skipBlanks ['Z']) = some (0, []) := by
    rw [skipBlanks_cons (by decide)]
    rfl
  have ended : (skipBlanks []).isEmpty = true := rfl
  rw [read?, written, readDate_dateChars]
  simp only [Option.bind_eq_bind, Option.bind_some, separated, readClock_clockChars, zone, ended,
    if_true, fromOffset?_zero]

end Instant

end PackedTables
