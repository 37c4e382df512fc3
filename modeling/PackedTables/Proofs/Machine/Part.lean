import PackedTables.Proofs.Machine.Reader
import PackedTables.Proofs.Record.Header
import PackedTables.Proofs.Record.Payload

/-!
# Cells and headers on a machine

What a machine reads of cells and headers it reads without a trap: bytes of the width of their kind
make a cell or are refused for their content, and a header of the right length has numbers far below
a word.
-/

namespace PackedTables

/-- Flaws that bytes of the right length can have. -/
def ByteFlaw.isPossible : ByteFlaw → Bool
  | boolByte _ | noVariant _ _ | notUtf8 | raggedArray _ _ | elementCount _ _ => true
  | addressLength _ | noByte | notFixed | notDynamic | elementNotFixed => false

/-- Flaws that a record of a planned layout can have. -/
def RecordFlaw.isPossible : RecordFlaw → Bool
  | outside _ _ _ | headerLength _ _ | headerCapacity _ _ => false
  | inField _ flaw => flaw.isPossible
  | _ => true

namespace Machine

/-! ## Cells -/

variable {strict : Bool} {kind element : Kind} {bytes : Bytes} {length : Option Nat}

theorem possible_of_readBool {byte : UInt8} {cause : ByteFlaw}
    (refused : Kind.readBool strict byte = .error cause) : cause.isPossible = true := by
  unfold Kind.readBool at refused
  split at refused
  · cases refused
  · split at refused
    · cases refused
    · split at refused
      · obtain rfl := Except.error.inj refused
        rfl
      · cases refused

theorem possible_of_readVariant {name : String} {variants : Nat} {byte : UInt8} {cause : ByteFlaw}
    (refused : Kind.readVariant name variants byte = .error cause) : cause.isPossible = true := by
  unfold Kind.readVariant at refused
  split at refused
  · cases refused
  · obtain rfl := Except.error.inj refused
    rfl

/-- A cell is read from as many bytes as its kind takes. -/
theorem read_follows (scalar : kind.Scalar) (sized : kind.width = .fixed bytes.length) :
    Follows (·.isPossible = true) (read strict kind bytes) (kind.read strict bytes) := by
  obtain ⟨width, fixed, positive, short⟩ := scalar.width_eq
  obtain rfl := Width.fixed.inj (fixed.symm.trans sized)
  obtain ⟨byte, rest, rfl⟩ := List.exists_cons_of_length_pos positive
  have first : (item (byte :: rest) 0 : Run ByteFlaw UInt8) = .ok byte := item_eq rfl
  cases scalar with
  | bool => exact .step first (.lift fun _ => possible_of_readBool)
  | uint some few => exact .step (if_pos short) (.ok _)
  | int some few =>
      have room : (byte :: rest).length ≤ Kind.wordLength := short
      refine .step first (.step (subtract_eq room) (.step (copy_eq ?_) ?_))
      · rw [List.length_replicate]
        omega
      · rw [List.take_replicate, Nat.min_eq_left (Nat.sub_le _ _)]
        exact .ok _
  | fixedBytes some few => exact .ok _
  | address =>
      have exact : (byte :: rest).length = Kind.addressWidth := (Width.fixed.inj sized).symm
      rw [read, Kind.read, if_pos exact, if_pos exact]
      refine .step (copy_eq ?_) (.ok _)
      rw [List.length_replicate, exact, Nat.zero_add]
  | enumeration some few => exact .step first (.lift fun _ => possible_of_readVariant)

theorem readArray_follows (scalar : element.Scalar) :
    Follows (·.isPossible = true) (readArray strict element length bytes)
      (Kind.readArray strict element length bytes) := by
  obtain ⟨width, fixed, positive, short⟩ := scalar.width_eq
  have divides : width ≠ 0 := Nat.ne_of_gt positive
  rw [Kind.readArray_eq fixed positive, readArray, fixed, Kind.readItems]
  refine .step (if_neg divides) (.ite (fun _ => .refuse rfl) fun whole => ?_)
  refine .step (if_neg divides) ?_
  have cells : Follows (·.isPossible = true)
      (chunks width bytes >>= fun parts => (parts.mapM (read strict element)).map Cell.array)
      (((bytes.chunks width positive).mapM (element.read strict)).map Cell.array) := by
    refine .step (dif_pos positive) (Follows.map (.mapM fun part member => ?_) _)
    refine read_follows scalar ?_
    rw [fixed, Bytes.length_of_mem_chunks positive (not_not.mp whole) part member]
  cases length with
  | none => exact cells
  | some expected =>
      simp only [checkCount]
      by_cases counted : bytes.length / width = expected
      · rw [if_pos counted, if_pos counted]
        exact cells
      · rw [if_neg counted, if_neg counted]
        exact .refuse rfl

theorem readPayload_follows (sound : kind.Sound) (varying : kind.width = .varying) :
    Follows (·.isPossible = true) (readPayload strict kind bytes)
      (kind.readPayload strict bytes) := by
  cases sound with
  | scalar scalar =>
      obtain ⟨width, fixed, -, -⟩ := scalar.width_eq
      cases varying.symm.trans fixed
  | bytes => exact .ok _
  | string =>
      rw [readPayload, Kind.readPayload]
      cases Utf8.decode? bytes with
      | none => exact .refuse rfl
      | some text => exact .ok _
  | array scalar counted => exact readArray_follows scalar

/-! ## The lengths header -/

section

variable {word : Bytes} {count : Nat}

theorem numberBefore_eq {start width : Nat} (narrow : width ≤ counterLength)
    (inside : start + width ≤ word.length) :
    (numberBefore word (start + width) width : Run ε Nat) =
      .ok (Bytes.number ((word.drop start).take width)) := by
  have begins : (subtract (start + width) width : Run ε Nat) = .ok start := by
    rw [subtract_eq (Nat.le_add_left _ _), Nat.add_sub_cancel]
  have cut := stretch_eq (ε := ε) (Bytes.slice?_eq_some inside)
  have placed : (counterLength - width) + ((word.drop start).take width).length =
      (List.replicate counterLength (0 : UInt8)).length := by
    rw [List.length_take, List.length_drop, List.length_replicate]
    omega
  have counter := Bytes.number_zeros_append (counterLength - width) ((word.drop start).take width)
  unfold numberBefore
  refine Outcome.bind_eq_ok.mpr ⟨_, subtract_eq narrow, Outcome.bind_eq_ok.mpr ⟨_, begins, ?_⟩⟩
  refine Outcome.bind_eq_ok.mpr ⟨_, cut, Outcome.bind_eq_ok.mpr ⟨_, copy_eq placed, ?_⟩⟩
  rw [List.take_replicate, Nat.min_eq_left (Nat.sub_le _ _), counter]
  rfl

theorem slotStop_eq {ordinal : Nat} (inside : ordinal < Limits.maxDynamicFields) :
    (slotStop ordinal : Run ε Nat) = .ok (Lengths.slotStart ordinal + Lengths.slotWidth) := by
  have few : ordinal < 5 := inside
  have below : (multiply Lengths.slotWidth ordinal : Run ε Nat) =
      .ok (Lengths.slotWidth * ordinal) := by
    refine if_pos ?_
    unfold Lengths.slotWidth Numeral.maxWord
    omega
  have above : (subtract (Lengths.wordLength - Lengths.totalWidth) (Lengths.slotWidth * ordinal) :
      Run ε Nat) = .ok (Lengths.slotStart ordinal + Lengths.slotWidth) := by
    unfold Lengths.slotStart Lengths.slotStop Lengths.wordLength Lengths.totalWidth
      Lengths.slotWidth
    rw [subtract_eq (by omega)]
    exact congrArg Except.ok (by omega)
  exact Outcome.bind_eq_ok.mpr ⟨_, subtract_eq (by decide),
    Outcome.bind_eq_ok.mpr ⟨_, below, above⟩⟩

theorem slotNumber_eq (whole : word.length = Lengths.wordLength) {ordinal : Nat}
    (inside : ordinal < Limits.maxDynamicFields) :
    (numberBefore word (Lengths.slotStart ordinal + Lengths.slotWidth) Lengths.slotWidth :
      Run ε Nat) = .ok (Lengths.slotLength word ordinal) := by
  refine numberBefore_eq (by decide) ?_
  have few : ordinal < 5 := inside
  rw [whole]
  unfold Lengths.slotStart Lengths.slotStop Lengths.wordLength Lengths.totalWidth Lengths.slotWidth
  omega

theorem wordTotal_eq (whole : word.length = Lengths.wordLength) :
    (numberBefore word Lengths.wordLength Lengths.totalWidth : Run ε Nat) =
      .ok (Lengths.wordTotal word) := by
  have last : (word.drop (Lengths.wordLength - Lengths.totalWidth)).take Lengths.totalWidth =
      word.drop (Lengths.wordLength - Lengths.totalWidth) := by
    refine List.take_of_length_le ?_
    rw [List.length_drop, whole]
    decide
  rw [Lengths.wordTotal, ← last]
  exact numberBefore_eq (by decide) (Nat.le_of_eq whole.symm)

theorem readSlots_cons (whole : word.length = Lengths.wordLength) {ordinal : Nat}
    (inside : ordinal < Limits.maxDynamicFields) (rest : List Nat) :
    readSlots word count (ordinal :: rest) =
      if ordinal < count then
        (readSlots word count rest).map (Lengths.slotLength word ordinal :: ·)
      else if Lengths.slotLength word ordinal = 0 then readSlots word count rest
      else refuse (.unusedSlot (Lengths.slotLength word ordinal) ordinal) := by
  rw [readSlots, slotStop_eq inside]
  change (numberBefore word _ Lengths.slotWidth >>= _) = _
  rw [slotNumber_eq whole inside]
  change (if ordinal < count then _ else _) = _
  cases readSlots word count rest <;> rfl

/-- The slots are read one by one, up to the first that should be unused and is not. -/
theorem readSlots_eq (whole : word.length = Lengths.wordLength) {ordinals : List Nat}
    (inside : ∀ ordinal ∈ ordinals, ordinal < Limits.maxDynamicFields) :
    readSlots word count ordinals =
      match ordinals.find? fun ordinal =>
        count ≤ ordinal && Lengths.slotLength word ordinal != 0 with
      | some ordinal => refuse (.unusedSlot (Lengths.slotLength word ordinal) ordinal)
      | none => .ok ((ordinals.filter (· < count)).map (Lengths.slotLength word)) := by
  induction ordinals with
  | nil => rfl
  | cons ordinal rest ih =>
      obtain ⟨here, there⟩ := List.forall_mem_cons.mp inside
      rw [readSlots_cons whole here, ih there]
      by_cases used : ordinal < count
      · have skipped : ¬count ≤ ordinal := Nat.not_le.mpr used
        rw [if_pos used, List.find?_cons_of_neg (by simp [skipped]),
          List.filter_cons_of_pos (by simpa using used)]
        split <;> rfl
      · have unused : count ≤ ordinal := Nat.not_lt.mp used
        rw [if_neg used, List.filter_cons_of_neg (by simpa using unused)]
        by_cases zero : Lengths.slotLength word ordinal = 0
        · rw [if_pos zero, List.find?_cons_of_neg (by simp [zero])]
        · rw [if_neg zero, List.find?_cons_of_pos (by simp [zero, unused])]

theorem filter_range_lt (few : count ≤ Limits.maxDynamicFields) :
    (List.range Limits.maxDynamicFields).filter (· < count) = List.range count := by
  obtain ⟨others, same⟩ := Nat.exists_eq_add_of_le few
  have below : (List.range count).filter (· < count) = List.range count := by
    simp
  have above : ((List.range others).map (count + ·)).filter (· < count) = [] := by
    simp
  rw [same, List.range_add, List.filter_append, below, above, List.append_nil]

/-- A header holds at most five lengths of five bytes, so their sum is far below a word. -/
theorem total_le_maxWord {lengths : List Nat} (few : lengths.length ≤ Limits.maxDynamicFields)
    (bounded : ∀ length ∈ lengths, length ≤ Limits.maxDynamicLength) :
    Limits.maxStaticLength + Lengths.wordLength + Lengths.total lengths ≤ Numeral.maxWord := by
  have total := Lengths.total_le few bounded
  refine Nat.le_trans (Nat.add_le_add_left total _) ?_
  decide

theorem ofWord_follows (whole : word.length = Lengths.wordLength)
    (few : count ≤ Limits.maxDynamicFields) :
    Follows (·.isPossible = true) (ofWord word count) (Lengths.ofWord word count) := by
  have slots : readSlots word count (List.range Limits.maxDynamicFields) =
      match Lengths.usedSlot? word count with
      | some ordinal => refuse (.unusedSlot (Lengths.slotLength word ordinal) ordinal)
      | none => .ok ((List.range count).map (Lengths.slotLength word)) := by
    rw [← filter_range_lt few]
    exact readSlots_eq whole fun ordinal member => List.mem_range.mp member
  unfold ofWord Lengths.ofWord
  rw [if_neg (not_not.mpr whole), if_neg (not_not.mpr whole), if_neg (Nat.not_lt.mpr few),
    if_neg (Nat.not_lt.mpr few)]
  refine .step (wordTotal_eq whole) ?_
  rw [slots]
  cases Lengths.usedSlot? word count with
  | some ordinal => exact .refuse rfl
  | none =>
      have bounded : ∀ length ∈ (List.range count).map (Lengths.slotLength word),
          length ≤ Limits.maxDynamicLength := by
        intro length member
        obtain ⟨ordinal, inside, rfl⟩ := List.mem_map.mp member
        exact Lengths.slotLength_le whole (Nat.lt_of_lt_of_le (List.mem_range.mp inside) few)
      have counted : ((List.range count).map (Lengths.slotLength word)).length ≤
          Limits.maxDynamicFields := by
        rwa [List.length_map, List.length_range]
      have small := total_le_maxWord counted bounded
      refine .step rfl (.step (sum_eq (Nat.le_trans (Nat.le_add_left _ _) small)) ?_)
      exact .ite (fun _ => .ok _) fun _ => .refuse rfl

end

end Machine

end PackedTables
