import PackedTables.Proofs.Bytes.Pieces
import PackedTables.Record.Lengths

/-!
# The lengths header

A word of thirty-two bytes is its five slots and its total, and nothing else: the writer fills the
places that it computes, and what comes out are the slots from the last one down, with the total
behind them.  So a header is read as some lengths exactly when it is the word that packs them.
-/

namespace PackedTables.Lengths

/-- The number that a slot should hold; the slots of absent fields hold zero. -/
def lengthAt (lengths : List Nat) (ordinal : Nat) : Nat := lengths[ordinal]?.getD 0

/-- The lengths that the first slots of a word tell. -/
def slots (word : Bytes) (count : Nat) : List Nat := (List.range count).map (slotLength word)

/-- No slot from a count on is used. -/
def Unused (word : Bytes) (count : Nat) : Prop :=
  ∀ ordinal, ordinal < 5 → count ≤ ordinal → slotLength word ordinal = 0

/-- The header as its parts, the slots of absent fields zero. -/
def pack (lengths : List Nat) : Bytes :=
  ((List.range Limits.maxDynamicFields).reverse.flatMap fun ordinal =>
    Bytes.bigEndian slotWidth (lengthAt lengths ordinal)) ++
  Bytes.bigEndian totalWidth (total lengths)

theorem length_pack (lengths : List Nat) : (pack lengths).length = wordLength := by
  simp [pack, Limits.maxDynamicFields, List.range_succ, slotWidth, totalWidth, wordLength]

theorem pack_eq (lengths : List Nat) :
    pack lengths = Bytes.bigEndian slotWidth (lengthAt lengths 4) ++
      (Bytes.bigEndian slotWidth (lengthAt lengths 3) ++
        (Bytes.bigEndian slotWidth (lengthAt lengths 2) ++
          (Bytes.bigEndian slotWidth (lengthAt lengths 1) ++
            (Bytes.bigEndian slotWidth (lengthAt lengths 0) ++
              Bytes.bigEndian totalWidth (total lengths))))) := by
  simp only [pack, Limits.maxDynamicFields, List.range_succ, List.range_zero,
    List.nil_append, List.cons_append, List.reverse_cons, List.reverse_nil, List.flatMap_cons,
    List.flatMap_nil, List.append_nil, List.append_assoc]

theorem slotLength_pack_mod (lengths : List Nat) {ordinal : Nat}
    (inside : ordinal < Limits.maxDynamicFields) :
    slotLength (pack lengths) ordinal = lengthAt lengths ordinal % Bytes.capacity slotWidth := by
  have stretch : ((pack lengths).drop (slotStart ordinal)).take slotWidth =
      Bytes.bigEndian slotWidth (lengthAt lengths ordinal) := by
    rw [pack_eq]
    unfold Limits.maxDynamicFields at inside
    match ordinal, inside with
    | 0, _ | 1, _ | 2, _ | 3, _ | 4, _ =>
        simp [slotStart, slotStop, wordLength, totalWidth, slotWidth, List.drop_append,
          List.drop_eq_nil_of_le]
  rw [slotLength, stretch, Bytes.number_bigEndian]

theorem wordTotal_pack_mod (lengths : List Nat) :
    wordTotal (pack lengths) = total lengths % Bytes.capacity totalWidth := by
  have stretch : (pack lengths).drop (wordLength - totalWidth) =
      Bytes.bigEndian totalWidth (total lengths) := by
    rw [pack_eq]
    simp [wordLength, totalWidth, slotWidth, List.drop_append, List.drop_eq_nil_of_le]
  rw [wordTotal, stretch, Bytes.number_bigEndian]

/-! ## Filling the places -/

/-- A slot is overwritten between what stands above and below it. -/
theorem putNumber_append {front old : Bytes} {stop width : Nat} (narrow : width ≤ 8)
    (placed : front.length + width = stop) (exact : old.length = width) (back : Bytes)
    (value : Nat) :
    putNumber (front ++ (old ++ back)) stop width value =
      front ++ (Bytes.bigEndian width value ++ back) := by
  have low : (Bytes.bigEndian 8 value).drop (8 - width) = Bytes.bigEndian width value := by
    have parts := Bytes.drop_bigEndian (8 - width) width value
    rwa [Nat.sub_add_cancel narrow] at parts
  have start : front.length = stop - width := by omega
  rw [putNumber, low, Bytes.overwrite_append start (by rw [exact, Bytes.length_bigEndian])]

/-- The slots of some fields, with the places of later fields still zero. -/
def slotBytes (lengths : List Nat) : Bytes :=
  List.replicate (slotStop lengths.length) 0 ++
    lengths.reverse.flatMap (Bytes.bigEndian slotWidth)

/-- One more slot is filled, right above those that are. -/
theorem putNumber_slotBytes {done : List Nat} (few : done.length < Limits.maxDynamicFields)
    (low : Bytes) (length : Nat) :
    putNumber (slotBytes done ++ low) (slotStop done.length) slotWidth length =
      slotBytes (done ++ [length]) ++ low := by
  have above : slotStop done.length = slotStop (done.length + 1) + slotWidth := by
    unfold Limits.maxDynamicFields at few
    unfold slotStop wordLength totalWidth slotWidth
    omega
  have zeros : (List.replicate (slotStop done.length) 0 : Bytes) =
      List.replicate (slotStop (done.length + 1)) 0 ++ List.replicate slotWidth 0 := by
    rw [above, List.replicate_append_replicate]
  rw [slotBytes, zeros, List.append_assoc, List.append_assoc,
    putNumber_append (by decide) (by rw [List.length_replicate, above]) List.length_replicate,
    slotBytes, List.length_append, List.length_singleton, List.reverse_append,
    List.reverse_singleton, List.singleton_append, List.flatMap_cons, List.append_assoc,
    List.append_assoc]

/-- Slot after slot is filled, from the last field that is done. -/
theorem foldl_putNumber {done rest : List Nat}
    (few : done.length + rest.length ≤ Limits.maxDynamicFields) (low : Bytes) :
    (rest.zipIdx done.length).foldl
        (fun word entry => putNumber word (slotStop entry.2) slotWidth entry.1)
        (slotBytes done ++ low) =
      slotBytes (done ++ rest) ++ low := by
  induction rest generalizing done with
  | nil => rw [List.zipIdx_nil, List.foldl_nil, List.append_nil]
  | cons length rest ih =>
      rw [List.length_cons] at few
      have next : (done ++ [length]).length = done.length + 1 := by
        rw [List.length_append, List.length_singleton]
      have later := ih (by omega : (done ++ [length]).length + rest.length ≤ _)
      rw [next, List.append_assoc, List.singleton_append] at later
      rw [List.zipIdx_cons, List.foldl_cons, putNumber_slotBytes (by omega), later]

/-- Absent fields have zero bytes in their slots. -/
theorem slotBytes_eq {lengths : List Nat} (few : lengths.length ≤ Limits.maxDynamicFields) :
    slotBytes lengths = (List.range Limits.maxDynamicFields).reverse.flatMap fun ordinal =>
      Bytes.bigEndian slotWidth (lengthAt lengths ordinal) := by
  unfold Limits.maxDynamicFields at few
  match lengths, few with
  | [], _ | [_], _ | [_, _], _ | [_, _, _], _ | [_, _, _, _], _ | [_, _, _, _, _], _ =>
      simp [slotBytes, slotStop, wordLength, totalWidth, slotWidth, Limits.maxDynamicFields,
        lengthAt, List.range_succ, Bytes.bigEndian_zero, List.replicate_succ]

/-- The writer makes the header of its parts. -/
theorem fill_eq_pack {lengths : List Nat} (few : lengths.length ≤ Limits.maxDynamicFields) :
    fill lengths = pack lengths := by
  have blank : putNumber (List.replicate wordLength 0) wordLength totalWidth (total lengths) =
      slotBytes [] ++ Bytes.bigEndian totalWidth (total lengths) := by
    have last : putNumber (List.replicate (slotStop 0) 0 ++ (List.replicate totalWidth 0 ++ []))
        wordLength totalWidth (total lengths) = _ :=
      putNumber_append (by decide) rfl rfl [] (total lengths)
    rwa [List.append_nil] at last
  have all : ([] : List Nat).length + lengths.length ≤ Limits.maxDynamicFields := by
    rwa [List.length_nil, Nat.zero_add]
  rw [fill, blank]
  refine (foldl_putNumber all _).trans ?_
  rw [List.nil_append, slotBytes_eq few, pack]

/-! ## Words of the right length -/

section

variable {word : Bytes} {ordinal : Nat}

theorem length_slot (whole : word.length = wordLength)
    (inside : ordinal < Limits.maxDynamicFields) :
    ((word.drop (slotStart ordinal)).take slotWidth).length = slotWidth := by
  rw [List.length_take, List.length_drop, whole]
  unfold Limits.maxDynamicFields at inside
  unfold slotStart slotStop wordLength totalWidth slotWidth
  omega

theorem bigEndian_slotLength (whole : word.length = wordLength)
    (inside : ordinal < Limits.maxDynamicFields) :
    Bytes.bigEndian slotWidth (slotLength word ordinal) =
      (word.drop (slotStart ordinal)).take slotWidth := by
  have same := Bytes.bigEndian_number ((word.drop (slotStart ordinal)).take slotWidth)
  rwa [length_slot whole inside] at same

theorem bigEndian_wordTotal (whole : word.length = wordLength) :
    Bytes.bigEndian totalWidth (wordTotal word) = word.drop (wordLength - totalWidth) := by
  have width : (word.drop (wordLength - totalWidth)).length = totalWidth := by
    rw [List.length_drop, whole]
    rfl
  have same := Bytes.bigEndian_number (word.drop (wordLength - totalWidth))
  rwa [width] at same

theorem slotLength_le (whole : word.length = wordLength)
    (inside : ordinal < Limits.maxDynamicFields) :
    slotLength word ordinal ≤ Limits.maxDynamicLength := by
  have small := Bytes.number_lt ((word.drop (slotStart ordinal)).take slotWidth)
  rw [length_slot whole inside] at small
  exact Nat.le_of_lt_succ small

/-- A word is its slots, the first field lowest, and its total below them. -/
theorem pack_eq_of_slots (whole : word.length = wordLength) {lengths : List Nat}
    (slots : ∀ ordinal, ordinal < Limits.maxDynamicFields →
      lengthAt lengths ordinal = slotLength word ordinal)
    (sum : total lengths = wordTotal word) : pack lengths = word := by
  -- Each slot is the front of what the slots above it leave.
  have cut (start : Nat) :
      (word.drop start).take slotWidth ++ word.drop (start + slotWidth) = word.drop start := by
    rw [← List.drop_drop, List.take_append_drop]
  have stretch (ordinal : Nat) (inside : ordinal < Limits.maxDynamicFields) :
      Bytes.bigEndian slotWidth (lengthAt lengths ordinal) =
        (word.drop (slotStart ordinal)).take slotWidth := by
    rw [slots ordinal inside, bigEndian_slotLength whole inside]
  rw [pack_eq, stretch 4 (by decide), stretch 3 (by decide), stretch 2 (by decide),
    stretch 1 (by decide), stretch 0 (by decide), sum, bigEndian_wordTotal whole]
  have joins := And.intro (cut 0) (And.intro (cut 5) (And.intro (cut 10)
    (And.intro (cut 15) (cut 20))))
  simp only [slotStart, slotStop, wordLength, totalWidth, slotWidth] at joins ⊢
  rw [joins.2.2.2.2, joins.2.2.2.1, joins.2.2.1, joins.2.1, joins.1, List.drop_zero]

end

/-! ## Reading and packing -/

section

variable {lengths : List Nat}

theorem lengthAt_le (bounded : ∀ length ∈ lengths, length ≤ Limits.maxDynamicLength)
    (ordinal : Nat) : lengthAt lengths ordinal ≤ Limits.maxDynamicLength := by
  unfold lengthAt
  cases found : lengths[ordinal]? with
  | none => exact Nat.zero_le _
  | some length => exact bounded length (List.mem_of_getElem? found)

/-- A bounded length loses no bits in its slot. -/
theorem lengthAt_mod (bounded : ∀ length ∈ lengths, length ≤ Limits.maxDynamicLength)
    (ordinal : Nat) :
    lengthAt lengths ordinal % Bytes.capacity slotWidth = lengthAt lengths ordinal :=
  Nat.mod_eq_of_lt (Nat.lt_succ_of_le (lengthAt_le bounded ordinal))

theorem slotLength_pack (bounded : ∀ length ∈ lengths, length ≤ Limits.maxDynamicLength)
    {ordinal : Nat} (inside : ordinal < Limits.maxDynamicFields) :
    slotLength (pack lengths) ordinal = lengthAt lengths ordinal := by
  rw [slotLength_pack_mod lengths inside, lengthAt_mod bounded]

theorem total_le (few : lengths.length ≤ Limits.maxDynamicFields)
    (bounded : ∀ length ∈ lengths, length ≤ Limits.maxDynamicLength) :
    total lengths ≤ Limits.maxDynamicFields * Limits.maxDynamicLength :=
  Nat.le_trans (Bytes.joinedLength_le bounded) (Nat.mul_le_mul_right _ few)

theorem total_mod (few : lengths.length ≤ Limits.maxDynamicFields)
    (bounded : ∀ length ∈ lengths, length ≤ Limits.maxDynamicLength) :
    total lengths % Bytes.capacity totalWidth = total lengths := by
  have small : Limits.maxDynamicFields * Limits.maxDynamicLength < Bytes.capacity totalWidth := by
    decide
  exact Nat.mod_eq_of_lt (Nat.lt_of_le_of_lt (total_le few bounded) small)

theorem wordTotal_pack (few : lengths.length ≤ Limits.maxDynamicFields)
    (bounded : ∀ length ∈ lengths, length ≤ Limits.maxDynamicLength) :
    wordTotal (pack lengths) = total lengths := by
  rw [wordTotal_pack_mod, total_mod few bounded]

theorem usedSlot?_eq_none_iff {word : Bytes} {count : Nat} :
    usedSlot? word count = none ↔ ∀ ordinal, ordinal < Limits.maxDynamicFields →
      count ≤ ordinal → slotLength word ordinal = 0 := by
  simp [usedSlot?, List.find?_eq_none]

theorem lengthAt_eq_zero {ordinal : Nat} (beyond : lengths.length ≤ ordinal) :
    lengthAt lengths ordinal = 0 := by
  rw [lengthAt, List.getElem?_eq_none beyond]
  rfl

/-- What is read are the first slots, when the others are unused and the total is their sum. -/
theorem ofWord_eq_ok_iff_slots {word : Bytes} {count : Nat} :
    ofWord word count = .ok lengths ↔ word.length = 32 ∧ count ≤ 5 ∧ Unused word count ∧
      total (slots word count) = wordTotal word ∧ slots word count = lengths := by
  constructor
  · intro read
    unfold ofWord at read
    split at read
    · cases read
    · rename_i whole
      split at read
      · cases read
      · rename_i few
        split at read
        · cases read
        · rename_i unused
          simp only at read
          split at read
          · rename_i sum
            exact ⟨Decidable.not_not.mp whole, Nat.not_lt.mp few, usedSlot?_eq_none_iff.mp unused,
              sum, Except.ok.inj read⟩
          · cases read
  · rintro ⟨whole, few, unused, sum, rfl⟩
    have whole' : ¬ word.length ≠ wordLength := not_not_intro whole
    have few' : ¬ Limits.maxDynamicFields < count := Nat.not_lt.mpr few
    unfold ofWord
    rw [if_neg whole', if_neg few', usedSlot?_eq_none_iff.mpr unused]
    exact if_pos sum

theorem getElem_slots {word : Bytes} {count ordinal : Nat}
    (inside : ordinal < (slots word count).length) :
    (slots word count)[ordinal] = slotLength word ordinal := by
  simp only [slots, List.getElem_map, List.getElem_range]

/-- A header is read as the lengths that it packs. -/
theorem ofWord_eq_ok_iff {word : Bytes} {count : Nat} (few : count ≤ Limits.maxDynamicFields) :
    ofWord word count = .ok lengths ↔ lengths.length = count ∧
      (∀ length ∈ lengths, length ≤ Limits.maxDynamicLength) ∧ pack lengths = word := by
  rw [ofWord_eq_ok_iff_slots]
  constructor
  · rintro ⟨whole, -, unused, sum, rfl⟩
    have counted : (slots word count).length = count := by
      rw [slots, List.length_map, List.length_range]
    refine ⟨counted, ?_, pack_eq_of_slots whole (fun ordinal inside => ?_) sum⟩
    · intro length member
      obtain ⟨ordinal, inRange, rfl⟩ := List.mem_map.mp member
      exact slotLength_le whole (Nat.lt_of_lt_of_le (List.mem_range.mp inRange) few)
    · by_cases within : ordinal < count
      · have place : ordinal < (slots word count).length := counted.symm ▸ within
        rw [lengthAt, List.getElem?_eq_getElem place, Option.getD_some, getElem_slots]
      · rw [lengthAt_eq_zero (counted.symm ▸ Nat.not_lt.mp within),
          unused ordinal inside (Nat.not_lt.mp within)]
  · rintro ⟨rfl, bounded, rfl⟩
    have same : slots (pack lengths) lengths.length = lengths := by
      apply List.ext_getElem (by simp [slots])
      intro ordinal inRange inside
      rw [getElem_slots, slotLength_pack bounded (Nat.lt_of_lt_of_le inside few), lengthAt,
        List.getElem?_eq_getElem inside, Option.getD_some]
    refine ⟨length_pack lengths, few, fun ordinal inside beyond => ?_, ?_, same⟩
    · rw [slotLength_pack bounded inside, lengthAt_eq_zero beyond]
    · rw [same, wordTotal_pack few bounded]

theorem pack_injective {others : List Nat} (few : lengths.length ≤ Limits.maxDynamicFields)
    (bounded : ∀ length ∈ lengths, length ≤ Limits.maxDynamicLength)
    (bounded' : ∀ length ∈ others, length ≤ Limits.maxDynamicLength)
    (counted : others.length = lengths.length) (same : pack lengths = pack others) :
    lengths = others := by
  have read := (ofWord_eq_ok_iff few).mpr ⟨rfl, bounded, rfl⟩
  have read' := (ofWord_eq_ok_iff few).mpr ⟨counted, bounded', rfl⟩
  rw [same] at read
  exact Except.ok.inj (read.symm.trans read')

theorem toWord_eq_ok (few : lengths.length ≤ Limits.maxDynamicFields)
    (bounded : ∀ length ∈ lengths, length ≤ Limits.maxDynamicLength) :
    toWord lengths = .ok (pack lengths) := by
  have none : (lengths.find? fun length => Limits.maxDynamicLength < length) = none := by
    refine List.find?_eq_none.mpr fun length member => ?_
    simpa using bounded length member
  unfold toWord
  rw [if_neg (Nat.not_lt.mpr few), none, fill_eq_pack few]

end

end PackedTables.Lengths
