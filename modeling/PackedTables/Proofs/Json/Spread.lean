import PackedTables.Json.Printer
import PackedTables.Json.Reader

/-!
# Reading spread JSON back

A piece of text that is cut into the same tokens whatever follows it can be put between any others.
The text of a value is put together from such pieces, and its tokens lead the machine from wanting a
value to having finished this one, whatever is open around it.
-/

namespace PackedTables.Json

/-- A piece of text that is cut into these tokens, whatever follows it. -/
def Cut (chars : List Char) (tokens : List Token) : Prop :=
  ∀ rest, tokens? (chars ++ rest) = (tokens? rest).map (tokens ++ ·)

/-! ## One token -/

namespace Token

/-- A character is escaped by a letter, by its number or not at all. -/
theorem escapeChar_cases (c : Char) :
    (∃ e, e ≠ 'u' ∧ escaped? e = some c ∧ escapeChar c = ['\\', e]) ∨
      (c.toNat < 0x20 ∧
        escapeChar c = ['\\', 'u', '0', '0', hexDigit (c.toNat / 16), hexDigit c.toNat]) ∨
      (c ≠ '"' ∧ c ≠ '\\' ∧ ¬c.toNat < 0x20) ∧ escapeChar c = [c] := by
  unfold escapeChar
  split
  · exact .inl ⟨'"', by decide, by rw [‹c = _›]; rfl, rfl⟩
  split
  · exact .inl ⟨'\\', by decide, by rw [‹c = _›]; rfl, rfl⟩
  split
  · exact .inl ⟨'b', by decide, by rw [‹c = _›]; rfl, rfl⟩
  split
  · exact .inl ⟨'f', by decide, by rw [‹c = _›]; rfl, rfl⟩
  split
  · exact .inl ⟨'n', by decide, by rw [‹c = _›]; rfl, rfl⟩
  split
  · exact .inl ⟨'r', by decide, by rw [‹c = _›]; rfl, rfl⟩
  split
  · exact .inl ⟨'t', by decide, by rw [‹c = _›]; rfl, rfl⟩
  split
  · exact .inr (.inl ⟨‹_›, rfl⟩)
  · exact .inr (.inr ⟨⟨‹_›, ‹_›, ‹_›⟩, rfl⟩)

theorem natural?_control {value : Nat} (control : value < 0x20) :
    Numeral.natural? 16 ['0', '0', hexDigit (value / 16), hexDigit value] = some value := by
  revert value
  decide

/-- An escaped character is one piece, and the piece stands for the character. -/
theorem exists_piece (c : Char) : ∃ piece,
    (∀ rest, scanPieces (escapeChar c ++ rest) = prepend piece (scanPieces rest)) ∧
      ∀ pieces, join? (piece :: pieces) = (join? pieces).map (c :: ·) := by
  rcases escapeChar_cases c with ⟨e, short, known, same⟩ | ⟨control, same⟩ |
    ⟨⟨mark, escape, visible⟩, same⟩
  · refine ⟨.plain c, fun rest => ?_, fun _ => rfl⟩
    rw [same, List.cons_append, List.singleton_append, scanPieces.eq_def]
    simp only [if_neg short, known, Char.reduceEq, if_true, if_false]
  · refine ⟨.unit c.toNat, fun rest => ?_, fun pieces => ?_⟩
    · rw [same, scanPieces.eq_def]
      simp only [List.cons_append, List.nil_append, Char.reduceEq, if_true, if_false,
        natural?_control control]
    · have high : isHighSurrogate c.toNat = false := by
        simp only [isHighSurrogate, Bool.and_eq_false_iff, decide_eq_false_iff_not]
        omega
      have low : isLowSurrogate c.toNat = false := by
        simp only [isLowSurrogate, Bool.and_eq_false_iff, decide_eq_false_iff_not]
        omega
      rw [join?.eq_def]
      simp only [high, low, Bool.false_eq_true, if_false, Char.ofNat_toNat]
  · refine ⟨.plain c, fun rest => ?_, fun _ => rfl⟩
    rw [same, List.singleton_append, scanPieces.eq_def]
    simp only [if_neg mark, if_neg escape, if_neg visible]

theorem exists_pieces (chars : List Char) : ∃ pieces, join? pieces = some chars ∧
    ∀ rest, scanPieces (chars.flatMap escapeChar ++ '"' :: rest) = some (pieces, rest) := by
  induction chars with
  | nil =>
      refine ⟨[], rfl, fun rest => ?_⟩
      rw [List.flatMap_nil, List.nil_append, scanPieces.eq_def]
      rfl
  | cons c chars ih =>
      obtain ⟨piece, scanned, joined⟩ := exists_piece c
      obtain ⟨pieces, whole, read⟩ := ih
      refine ⟨piece :: pieces, ?_, fun rest => ?_⟩
      · rw [joined, whole, Option.map_some]
      · rw [List.flatMap_cons, List.append_assoc, scanned, read]
        rfl

theorem scan_quote (text : String) (rest : List Char) :
    scan '"' (text.toList.flatMap escapeChar ++ '"' :: rest) = some (.text (some text), rest) := by
  obtain ⟨pieces, whole, read⟩ := exists_pieces text.toList
  change scanText _ = _
  rw [scanText, read, Option.map_some, whole, Option.map_some, String.ofList_toList]

end Token

namespace Cut

variable {c : Char} {chars others : List Char} {token : Token} {tokens more : List Token}

theorem nil : Cut [] [] := fun rest => by simp

theorem append (first : Cut chars tokens) (second : Cut others more) :
    Cut (chars ++ others) (tokens ++ more) := by
  intro rest
  rw [List.append_assoc, first, second, Option.map_map]
  exact congrArg (fun change => (tokens? rest).map change)
    (funext fun left => (List.append_assoc _ _ _).symm)

theorem blank (blank : Token.isBlank c = true) : Cut [c] [] := by
  intro rest
  rw [List.singleton_append, tokens?, if_pos blank]
  simp

theorem blanks (each : ∀ c ∈ chars, Token.isBlank c = true) : Cut chars [] := by
  induction chars with
  | nil => exact nil
  | cons c chars ih =>
      obtain ⟨here, there⟩ := List.forall_mem_cons.mp each
      exact (blank here).append (ih there)

/-- One token that ends by itself. -/
theorem one (visible : Token.isBlank c = false)
    (scanned : ∀ rest, Token.scan c (chars ++ rest) = some (token, rest)) :
    Cut (c :: chars) [token] := by
  intro rest
  rw [List.cons_append, tokens?, visible, if_neg (by decide)]
  split
  · rename_i found left read
    rw [scanned] at read
    obtain ⟨rfl, rfl⟩ := Prod.mk.inj (Option.some.inj read)
    rfl
  · rename_i read
    rw [scanned] at read
    cases read

theorem mark (visible : Token.isBlank c = false)
    (scanned : ∀ rest, Token.scan c rest = some (token, rest)) : Cut [c] [token] :=
  one visible fun rest => scanned rest

theorem newline (level : Nat) : Cut (Json.newline level) [] := by
  refine blanks fun c member => ?_
  rcases List.mem_cons.mp member with rfl | inBlanks
  · rfl
  · rw [List.eq_of_mem_replicate inBlanks]
    rfl

theorem quote (text : String) : Cut (Json.quote text) [.text (some text)] := by
  refine one (by decide) fun rest => ?_
  change Token.scan '"' (text.toList.flatMap escapeChar ++ ['"'] ++ rest) = _
  rw [List.append_assoc, List.singleton_append, Token.scan_quote]

end Cut

/-! ## Values -/

/-- Values of texts and truth values, under names that are whole. -/
inductive Plain : Json → Prop
  | null : Plain .null
  | bool (value : Bool) : Plain (.bool value)
  | text (value : String) : Plain (.text value)
  | array {items : List Json} : (∀ item ∈ items, Plain item) → Plain (.array items)
  | record {members : List (String × Json)} : (∀ member ∈ members, Plain member.2) →
      Plain (record members)

/-- A piece of text that is read as a value, whatever is open around it. -/
def Spells (chars : List Char) (value : Json) : Prop :=
  ∃ tokens, Cut chars tokens ∧
    ∀ stack, State.run (.wantValue stack) tokens = some (.finished value stack)

namespace State

variable {stack below : List Frame} {tokens more : List Token} {value item : Json}

theorem run_append_of_run {state next : State} (reached : run state tokens = some next)
    (more : List Token) : run state (tokens ++ more) = run next more := by
  rw [run_append, reached, Option.bind_some]

/-- After an opening bracket a value goes on as any item does. -/
theorem run_wantItemOrClose
    (reached : run (.wantValue (.items [] :: stack)) tokens = some (.finished value below)) :
    run (.wantItemOrClose stack) tokens = some (.finished value below) := by
  cases tokens with
  | nil => cases reached
  | cons token rest =>
      cases token with
      | closeBracket => cases reached
      | _ => exact reached

end State

theorem spells_scalar {chars : List Char} {token : Token} {value : Json} (cut : Cut chars [token])
    (accepted : ∀ stack, State.value stack token = some (.finished value stack)) :
    Spells chars value := by
  refine ⟨[token], cut, fun stack => ?_⟩
  rw [State.run, State.step, accepted]
  rfl

theorem spells_text (value : String) : Spells (quote value) (.text value) :=
  spells_scalar (.quote value) fun _ => rfl

/-- The items after one that has been read, up to the closing bracket. -/
theorem exists_tokens_spreadItems {rest : List Json} (level : Nat)
    (each : ∀ item ∈ rest, Spells (spreadChars (level + 1) item) item) :
    ∃ tokens, Cut (spreadItems level rest) tokens ∧ ∀ last done stack,
      State.run (.finished last (.items done :: stack)) tokens =
        some (.finished (.array (done.reverse ++ last :: rest)) stack) := by
  induction rest with
  | nil =>
      refine ⟨[.closeBracket], ?_, fun last done stack => ?_⟩
      · rw [spreadItems]
        exact (Cut.newline level).append (.mark rfl fun rest => rfl)
      · rw [← List.reverse_cons]
        rfl
  | cons item rest ih =>
      obtain ⟨⟨tokens, cut, reached⟩, there⟩ := List.forall_mem_cons.mp each
      obtain ⟨more, cut', reached'⟩ := ih there
      refine ⟨.comma :: (tokens ++ more), ?_, fun last done stack => ?_⟩
      · rw [spreadItems]
        have comma : Cut [','] [.comma] := .mark rfl fun rest => rfl
        exact ((comma.append (.newline _)).append cut).append cut'
      · change State.run (.wantValue (.items (last :: done) :: stack)) (tokens ++ more) = _
        rw [State.run_append_of_run (reached _), reached', List.reverse_cons, List.append_assoc,
          List.singleton_append]

theorem spells_array {items : List Json} (level : Nat)
    (each : ∀ item ∈ items, Spells (spreadChars (level + 1) item) item) :
    Spells (spreadChars level (.array items)) (.array items) := by
  have opened : Cut ['['] [.openBracket] := .mark rfl fun rest => rfl
  cases items with
  | nil =>
      refine ⟨[.openBracket, .closeBracket], ?_, fun stack => rfl⟩
      rw [spreadChars]
      exact opened.append (.mark rfl fun rest => rfl)
  | cons item rest =>
      obtain ⟨⟨tokens, cut, reached⟩, there⟩ := List.forall_mem_cons.mp each
      obtain ⟨more, cut', reached'⟩ := exists_tokens_spreadItems level there
      refine ⟨.openBracket :: (tokens ++ more), ?_, fun stack => ?_⟩
      · rw [spreadChars]
        exact ((opened.append (.newline _)).append cut).append cut'
      · change State.run (.wantItemOrClose stack) (tokens ++ more) = _
        refine State.run_wantItemOrClose ?_
        rw [State.run_append_of_run (reached _), reached', List.reverse_nil, List.nil_append]

/-- The members after one that has been read, up to the closing brace. -/
theorem exists_tokens_spreadMembers {rest : List (String × Json)} (level : Nat)
    (each : ∀ member ∈ rest, Spells (spreadChars (level + 1) member.2) member.2) :
    ∃ tokens, Cut (spreadMembers level (rest.map fun member => (some member.1, member.2))) tokens ∧
      ∀ last done name stack, State.run (.finished last (.members done name :: stack)) tokens =
        some (.finished (.object (done.reverse ++ (name, last) ::
          rest.map fun member => (some member.1, member.2))) stack) := by
  induction rest with
  | nil =>
      refine ⟨[.closeBrace], ?_, fun last done name stack => ?_⟩
      · rw [List.map_nil, spreadMembers]
        exact (Cut.newline level).append (.mark rfl fun rest => rfl)
      · rw [List.map_nil, ← List.reverse_cons]
        rfl
  | cons member rest ih =>
      obtain ⟨⟨tokens, cut, reached⟩, there⟩ := List.forall_mem_cons.mp each
      obtain ⟨more, cut', reached'⟩ := ih there
      refine ⟨.comma :: .text (some member.1) :: .colon :: (tokens ++ more), ?_,
        fun last done name stack => ?_⟩
      · rw [List.map_cons, spreadMembers]
        have comma : Cut [','] [.comma] := .mark rfl fun rest => rfl
        have colon : Cut [':', ' '] [.colon] :=
          (Cut.mark rfl fun rest => rfl).append (.blank rfl)
        exact (((comma.append (.newline _)).append (.quote member.1)).append
          (colon.append cut)).append cut'
      · change State.run (.wantValue (.members ((name, last) :: done) (some member.1) :: stack))
          (tokens ++ more) = _
        rw [State.run_append_of_run (reached _), reached', List.reverse_cons, List.append_assoc,
          List.singleton_append, List.map_cons]

theorem spells_record {members : List (String × Json)} (level : Nat)
    (each : ∀ member ∈ members, Spells (spreadChars (level + 1) member.2) member.2) :
    Spells (spreadChars level (record members)) (record members) := by
  have opened : Cut ['\x7b'] [.openBrace] := .mark rfl fun rest => rfl
  unfold record
  cases members with
  | nil =>
      refine ⟨[.openBrace, .closeBrace], ?_, fun stack => rfl⟩
      rw [List.map_nil, spreadChars]
      exact opened.append (.mark rfl fun rest => rfl)
  | cons member rest =>
      obtain ⟨⟨tokens, cut, reached⟩, there⟩ := List.forall_mem_cons.mp each
      obtain ⟨more, cut', reached'⟩ := exists_tokens_spreadMembers level there
      refine ⟨.openBrace :: .text (some member.1) :: .colon :: (tokens ++ more), ?_,
        fun stack => ?_⟩
      · rw [List.map_cons, spreadChars]
        have colon : Cut [':', ' '] [.colon] :=
          (Cut.mark rfl fun rest => rfl).append (.blank rfl)
        exact (((opened.append (.newline _)).append (.quote member.1)).append
          (colon.append cut)).append cut'
      · change State.run (.wantValue (.members [] (some member.1) :: stack)) (tokens ++ more) = _
        rw [State.run_append_of_run (reached _), reached', List.reverse_nil, List.nil_append,
          List.map_cons]

theorem Plain.spells {value : Json} (plain : value.Plain) (level : Nat) :
    Spells (spreadChars level value) value := by
  induction plain generalizing level with
  | null => exact spells_scalar (.one rfl fun rest => rfl) fun _ => rfl
  | bool value =>
      cases value with
      | true => exact spells_scalar (.one rfl fun rest => rfl) fun _ => rfl
      | false => exact spells_scalar (.one rfl fun rest => rfl) fun _ => rfl
  | text value => exact spells_text value
  | array _ ih => exact spells_array level fun item member => ih item member (level + 1)
  | record _ ih => exact spells_record level fun member listed => ih member listed (level + 1)

/-- The spread form of a plain value is read as that value. -/
theorem Plain.parse?_spread {value : Json} (plain : value.Plain) :
    parse? value.spread = some value := by
  obtain ⟨tokens, cut, reached⟩ := plain.spells 0
  have whole := cut []
  rw [List.append_nil, tokens?, Option.map_some, List.append_nil] at whole
  rw [parse?, spread, String.toList_ofList, whole, Option.bind_some, ofTokens?, reached]

end PackedTables.Json
