import Mathlib.Data.Nat.Digits.Defs
import PackedTables.Proofs.Outcome
import PackedTables.Proofs.Record.Header

/-!
# Packing lengths

A header is one number: the total in its low seven bytes, and above it the lengths as digits of five
bytes, the first one lowest.  Lengths are packed exactly when each is a digit and there are at most
five, and then they are all read back.  In turn a word that is read is the header of what is read.
-/

namespace PackedTables.Lengths

/-- Lengths cut, or filled up with zeros, to a count. -/
def fitted (lengths : List Nat) (count : Nat) : List Nat := (lengths.take count).rightpad count 0

/-- What keeps a word from being a header of some lengths; of several flaws the first one. -/
inductive Broken (word : Bytes) (count : Nat) : RecordFlaw → Prop
  | length : word.length ≠ 32 → Broken word count (.headerLength word.length 32)
  | capacity : word.length = 32 → 5 < count → Broken word count (.headerCapacity count 5)
  | unused {ordinal : Nat} : word.length = 32 → count ≤ ordinal → ordinal < 5 →
      (∀ lower, count ≤ lower → lower < ordinal → slotLength word lower = 0) →
      slotLength word ordinal ≠ 0 →
      Broken word count (.unusedSlot (slotLength word ordinal) ordinal)
  | total : word.length = 32 → count ≤ 5 → Unused word count →
      total (slots word count) ≠ wordTotal word →
      Broken word count (.totalMismatch (wordTotal word) (total (slots word count)))

variable {lengths : List Nat} {word : Bytes} {count : Nat}

/-! ## Packing -/

theorem toWord_eq_ok_iff :
    toWord lengths = .ok word ↔ lengths.length ≤ Limits.maxDynamicFields ∧
      (∀ length ∈ lengths, length ≤ Limits.maxDynamicLength) ∧ pack lengths = word := by
  constructor
  · intro packed
    unfold toWord at packed
    split at packed
    · cases packed
    · rename_i few
      split at packed
      · cases packed
      · rename_i none
        rw [fill_eq_pack (Nat.not_lt.mp few)] at packed
        refine ⟨Nat.not_lt.mp few, fun length member => ?_, Except.ok.inj packed⟩
        simpa using List.find?_eq_none.mp none length member
  · rintro ⟨few, bounded, rfl⟩
    exact toWord_eq_ok few bounded

/-- At most five digits, written out from the lowest one on. -/
theorem ofDigits_eq (base : Nat) (few : lengths.length ≤ 5) :
    Nat.ofDigits base lengths = lengthAt lengths 0 + base * (lengthAt lengths 1 +
      base * (lengthAt lengths 2 + base * (lengthAt lengths 3 + base * lengthAt lengths 4))) := by
  match lengths, few with
  | [], _ | [_], _ | [_, _], _ | [_, _, _], _ | [_, _, _, _], _ | [_, _, _, _, _], _ =>
      simp [lengthAt, Nat.ofDigits_cons]

theorem number_pack (few : lengths.length ≤ Limits.maxDynamicFields)
    (bounded : ∀ length ∈ lengths, length ≤ Limits.maxDynamicLength) :
    Bytes.number (pack lengths) = total lengths + 2 ^ 56 * Nat.ofDigits (2 ^ 40) lengths := by
  rw [pack_eq, ofDigits_eq (2 ^ 40) few]
  simp only [Bytes.number_append, Bytes.number_bigEndian, lengthAt_mod bounded,
    total_mod few bounded, List.length_append, Bytes.length_bigEndian]
  simp only [Bytes.capacity_eq, slotWidth, totalWidth]
  omega

theorem total?_eq (few : lengths.length ≤ Limits.maxDynamicFields)
    (bounded : ∀ length ∈ lengths, length ≤ Limits.maxDynamicLength) :
    total? lengths = some (total lengths) := by
  have small : Limits.maxDynamicFields * Limits.maxDynamicLength ≤ Numeral.maxWord := by decide
  exact if_pos (Nat.le_trans (total_le few bounded) small)

/-! ## Words that are no headers -/

/-- The first used slot is the one that is told. -/
theorem broken_of_usedSlot? (whole : word.length = 32) {ordinal : Nat}
    (used : usedSlot? word count = some ordinal) :
    Broken word count (.unusedSlot (slotLength word ordinal) ordinal) := by
  have first := List.find?_range_eq_some.mp used
  simp only [Bool.and_eq_true, decide_eq_true_eq, bne_iff_ne, ne_eq] at first
  obtain ⟨⟨beyond, filled⟩, inside, lower⟩ := first
  refine .unused whole beyond (List.mem_range.mp inside) (fun other above below => ?_) filled
  simpa [above] using lower other below

theorem broken_of_ofWord {flaw : RecordFlaw} (refused : ofWord word count = .error flaw) :
    Broken word count flaw := by
  unfold ofWord at refused
  split at refused
  · rename_i short
    obtain rfl := Except.error.inj refused
    exact .length short
  · rename_i whole
    replace whole : word.length = 32 := Decidable.not_not.mp whole
    split at refused
    · rename_i many
      obtain rfl := Except.error.inj refused
      exact .capacity whole many
    · rename_i few
      split at refused
      · rename_i ordinal used
        obtain rfl := Except.error.inj refused
        exact broken_of_usedSlot? whole used
      · rename_i unused
        simp only at refused
        split at refused
        · cases refused
        · rename_i different
          obtain rfl := Except.error.inj refused
          exact .total whole (Nat.not_lt.mp few) (usedSlot?_eq_none_iff.mp unused) different

/-! ## Packing, then reading -/

theorem lengthAt_fitted {ordinal : Nat} (counted : ordinal < count) :
    lengthAt (fitted lengths count) ordinal = lengthAt lengths ordinal := by
  unfold fitted lengthAt List.rightpad
  by_cases inside : ordinal < lengths.length
  · rw [List.getElem?_append_left (by simp [counted, inside]), List.getElem?_take_of_lt counted]
  · rw [List.getElem?_append_right (by simp; omega), List.getElem?_eq_none (Nat.not_lt.mp inside)]
    cases found : (List.replicate (count - (lengths.take count).length) 0)[
        ordinal - (lengths.take count).length]? with
    | none => rfl
    | some length => exact (List.mem_replicate.mp (List.mem_of_getElem? found)).2

theorem length_fitted : (fitted lengths count).length = count := by
  unfold fitted
  rw [List.length_rightpad, List.length_take]
  omega

/-- The slots of a header are the lengths that it packs, cut or filled up. -/
theorem slots_pack (bounded : ∀ length ∈ lengths, length ≤ Limits.maxDynamicLength)
    (few : count ≤ Limits.maxDynamicFields) :
    slots (pack lengths) count = fitted lengths count := by
  apply List.ext_getElem (by rw [length_fitted, slots, List.length_map, List.length_range])
  intro ordinal inRange inside
  have counted : ordinal < count := by rwa [length_fitted] at inside
  rw [getElem_slots, slotLength_pack bounded (Nat.lt_of_lt_of_le counted few),
    ← lengthAt_fitted counted, lengthAt, List.getElem?_eq_getElem inside, Option.getD_some]

theorem unused_pack_iff (packed : toWord lengths = .ok word) :
    Unused word count ↔ ∀ length ∈ lengths.drop count, length = 0 := by
  obtain ⟨few, bounded, rfl⟩ := toWord_eq_ok_iff.mp packed
  constructor
  · intro unused length member
    obtain ⟨place, inside, rfl⟩ := List.mem_iff_getElem.mp member
    rw [List.length_drop] at inside
    have within : count + place < Limits.maxDynamicFields := by omega
    have zero := unused (count + place) within (Nat.le_add_right _ _)
    rw [slotLength_pack bounded within, lengthAt, List.getElem?_eq_getElem (by omega)] at zero
    rw [List.getElem_drop]
    exact zero
  · intro zeros ordinal within beyond
    rw [slotLength_pack bounded within, lengthAt]
    cases found : lengths[ordinal]? with
    | none => rfl
    | some length =>
        refine zeros length (List.mem_iff_getElem?.mpr ⟨ordinal - count, ?_⟩)
        rw [List.getElem?_drop, Nat.add_sub_cancel' beyond, found]

theorem total_eq_sum (lengths : List Nat) : total lengths = lengths.sum :=
  Bytes.joinedLength_eq_sum lengths

/-- Lengths that lose only zeros keep their sum. -/
theorem total_fitted (zeros : ∀ length ∈ lengths.drop count, length = 0) :
    total (fitted lengths count) = total lengths := by
  have kept : lengths.sum = (lengths.take count).sum := by
    have rest : (lengths.drop count).sum = 0 := List.sum_eq_zero_iff_forall_eq_nat.mpr zeros
    rw [← Nat.add_zero (lengths.take count).sum, ← rest, ← List.sum_append, List.take_append_drop]
  rw [total_eq_sum, total_eq_sum, kept, fitted, List.rightpad, List.sum_append,
    List.sum_replicate_nat, Nat.mul_zero, Nat.add_zero]

/-- A header can be read with a count when the lengths beyond it are zero. -/
theorem ofWord_toWord_iff {read : List Nat} (packed : toWord lengths = .ok word)
    (few : count ≤ Limits.maxDynamicFields) :
    ofWord word count = .ok read ↔
      (∀ length ∈ lengths.drop count, length = 0) ∧ read = fitted lengths count := by
  rw [ofWord_eq_ok_iff_slots, unused_pack_iff packed]
  obtain ⟨many, bounded, rfl⟩ := toWord_eq_ok_iff.mp packed
  rw [slots_pack bounded few, wordTotal_pack many bounded]
  constructor
  · rintro ⟨-, -, zeros, -, rfl⟩
    exact ⟨zeros, rfl⟩
  · rintro ⟨zeros, rfl⟩
    exact ⟨length_pack lengths, few, zeros, total_fitted zeros, rfl⟩

/-! ## The bijection -/

theorem toWord_of_ofWord (read : ofWord word count = .ok lengths) : toWord lengths = .ok word := by
  have few : count ≤ Limits.maxDynamicFields := (ofWord_eq_ok_iff_slots.mp read).2.1
  obtain ⟨counted, bounded, same⟩ := (ofWord_eq_ok_iff few).mp read
  exact toWord_eq_ok_iff.mpr ⟨counted ▸ few, bounded, same⟩

theorem exists_toWord_iff :
    (∃ word, toWord lengths = .ok word) ↔
      lengths.length ≤ 5 ∧ ∀ length ∈ lengths, length ≤ 2 ^ 40 - 1 := by
  constructor
  · rintro ⟨word, packed⟩
    obtain ⟨few, bounded, -⟩ := toWord_eq_ok_iff.mp packed
    exact ⟨few, bounded⟩
  · rintro ⟨few, bounded⟩
    exact ⟨pack lengths, toWord_eq_ok few bounded⟩

theorem not_unused_iff : ¬ Unused word count ↔
    ∃ ordinal, count ≤ ordinal ∧ ordinal < 5 ∧ slotLength word ordinal ≠ 0 := by
  unfold Unused
  push Not
  exact exists_congr fun ordinal => and_left_comm

/-- A refused word has the first of its flaws, and only a word with a flaw is refused. -/
theorem exists_broken_iff :
    (∃ flaw, ofWord word count = .error flaw ∧ Broken word count flaw) ↔
      word.length ≠ 32 ∨ 5 < count ∨ ¬ Unused word count ∨
        total (slots word count) ≠ wordTotal word := by
  have accepted : (∃ read, ofWord word count = .ok read) ↔ word.length = 32 ∧ count ≤ 5 ∧
      Unused word count ∧ total (slots word count) = wordTotal word := by
    simp only [ofWord_eq_ok_iff_slots, exists_and_left, exists_eq', and_true]
  have refused : (∃ flaw, ofWord word count = .error flaw ∧ Broken word count flaw) ↔
      ¬ ∃ read, ofWord word count = .ok read := by
    cases outcome : ofWord word count with
    | ok read => simp
    | error flaw => simpa using broken_of_ofWord outcome
  rw [refused, accepted]
  simp only [not_and_or, Nat.not_le, ne_eq]

/-- Packing is possible exactly for at most five lengths of five bytes.  A packed word is one number
that has every length as a digit and the exact sum below them, and it is read as these lengths with
any count that leaves out only zeros.  A word that is read is the packing of what is read, and every
other word is malformed. -/
theorem toWord_bijective (lengths : List Nat) :
    ((∃ word, toWord lengths = .ok word) ↔
      lengths.length ≤ 5 ∧ ∀ length ∈ lengths, length ≤ 2 ^ 40 - 1) ∧
    (∀ word, toWord lengths = .ok word →
      word.length = 32 ∧ total? lengths = some lengths.sum ∧
      Bytes.number word = lengths.sum + 2 ^ 56 * Nat.ofDigits (2 ^ 40) lengths ∧
      wordTotal word = lengths.sum ∧
      (∀ ordinal, ordinal < 5 → slotLength word ordinal = lengths[ordinal]?.getD 0) ∧
      ofWord word lengths.length = .ok lengths ∧
      ∀ count, count ≤ 5 → ∀ read, ofWord word count = .ok read ↔
        (∀ length ∈ lengths.drop count, length = 0) ∧
          read = (lengths.take count).rightpad count 0) ∧
    (∀ word count, ofWord word count = .ok lengths → toWord lengths = .ok word) ∧
    ∀ table word count,
      (∃ flaw, (ofWord word count).mapError (Fault.malformedRecord table) =
        .error (.malformedRecord table flaw) ∧ Broken word count flaw) ↔
      word.length ≠ 32 ∨ 5 < count ∨
        (∃ ordinal, count ≤ ordinal ∧ ordinal < 5 ∧ slotLength word ordinal ≠ 0) ∨
        (slots word count).sum ≠ wordTotal word := by
  refine ⟨exists_toWord_iff, fun word packed => ?_, fun word count => toWord_of_ofWord,
    fun table word count => ?_⟩
  · obtain ⟨few, bounded, rfl⟩ := toWord_eq_ok_iff.mp packed
    rw [← total_eq_sum]
    exact ⟨length_pack lengths, total?_eq few bounded, number_pack few bounded,
      wordTotal_pack few bounded, fun ordinal inside => slotLength_pack bounded inside,
      (ofWord_eq_ok_iff few).mpr ⟨rfl, bounded, rfl⟩,
      fun count within read => ofWord_toWord_iff packed within⟩
  · rw [← total_eq_sum, ← not_unused_iff, ← exists_broken_iff]
    refine exists_congr fun flaw => and_congr_left fun _ => ?_
    rw [Outcome.mapError_eq_error]
    constructor
    · rintro ⟨cause, refused, same⟩
      rwa [← (Fault.malformedRecord.inj same).2]
    · exact fun refused => ⟨flaw, refused, rfl⟩

/-- Two lengths are read as five when three zeros are added, and not as one. -/
theorem toWord_bijective_two :
    toWord [5, 4] = .ok (pack [5, 4]) ∧
    Bytes.number (pack [5, 4]) = 9 + 2 ^ 56 * (5 + 2 ^ 40 * 4) ∧
    ofWord (pack [5, 4]) 5 = .ok [5, 4, 0, 0, 0] ∧ ¬ ofWord (pack [5, 4]) 1 = .ok [5] := by
  have packed : toWord [5, 4] = .ok (pack [5, 4]) := rfl
  obtain ⟨-, -, digits, -, -, -, read⟩ := (toWord_bijective [5, 4]).2.1 _ packed
  refine ⟨packed, ?_, (read 5 (by decide) _).mpr ⟨by decide, by decide⟩, fun cut => ?_⟩
  · rw [digits]
    rfl
  · exact absurd (((read 1 (by decide) _).mp cut).1 4 (by simp)) (by decide)

end PackedTables.Lengths
