import PackedTables.Proofs.Text.Digits
import PackedTables.Proofs.Toml.Quote
import PackedTables.Toml.Reader

/-!
# Reading written values back

A quoted text, a list of quoted texts, a number in digits and a truth value are each cut into tokens
that lead the machine from wanting a value to having finished this one.
-/

namespace PackedTables.Toml

/-! ## Words -/

namespace Mode

variable {c : Char} {chars seen : List Char}

theorem leads_word (each : ∀ c ∈ chars, isWord c = true) :
    Leads (.word seen) chars (.word (chars.reverse ++ seen)) := by
  induction chars generalizing seen with
  | nil => exact .nil _
  | cons c rest ih =>
      obtain ⟨here, there⟩ := List.forall_mem_cons.mp each
      rw [List.reverse_cons, List.append_assoc]
      exact .cons (if_pos here) (ih there)

theorem isWord_of_isDigit (digit : Numeral.IsDigit c) : isWord c = true := by
  have digit := Numeral.isDigit_iff.mpr digit
  simp [isWord, Char.isAlphanum, digit]

theorem between?_of_isWord (previous : Char) (word : isWord c = true) :
    between? previous c = some ([], .word [c]) := by
  have other {special : Char} (strange : isWord special = false) : c ≠ special := by
    rintro rfl
    rw [word] at strange
    cases strange
  have gap : isGap c = false := by
    have blank : isWord ' ' = false := by decide
    have tab : isWord '\t' = false := by decide
    simp [isGap, other blank, other tab]
  rw [between?, gap, if_neg (by decide), if_neg (other (by decide)), if_neg (other (by decide)),
    if_neg (other (by decide)), if_neg (other (by decide)), if_neg (other (by decide)),
    if_neg (other (by decide)), if_neg (other (by decide)), if_neg (other (by decide)), if_neg,
    if_pos word]
  rintro (quote | apostrophe)
  · exact other (by decide) quote
  · exact other (by decide) apostrophe

/-- A word is begun between tokens. -/
theorem leads_of_isWord (nonempty : chars ≠ []) (each : ∀ c ∈ chars, isWord c = true)
    (previous : Char) : Leads (.between previous) chars (.word chars.reverse) := by
  obtain ⟨c, rest, rfl⟩ := List.exists_cons_of_ne_nil nonempty
  obtain ⟨here, there⟩ := List.forall_mem_cons.mp each
  rw [List.reverse_cons]
  exact .cons (between?_of_isWord previous here) (leads_word there)

theorem not_mem_of_isWord (each : ∀ c ∈ chars, isWord c = true) : '\r' ∉ chars :=
  fun member => absurd (each _ member) (by decide)

end Mode

/-- A word up to the end of its line. -/
theorem cut_word {chars : List Char} (nonempty : chars ≠ [])
    (each : ∀ c ∈ chars, Mode.isWord c = true) :
    Cut ' ' (chars ++ ['\n']) [.word chars, .newline] := by
  have ended (seen : List Char) : Mode.run (.word seen) ['\n'] =
      some ([.word seen.reverse, .newline], .between '\n') := rfl
  have reached : Mode.run (.between ' ') (chars ++ ['\n']) =
      some ([.word chars, .newline], .between '\n') := by
    rw [(Mode.leads_of_isWord nonempty each ' ').run_append, ended, List.reverse_reverse]
  refine .of_run (fun member => ?_) reached (by decide) (by decide)
  rcases List.mem_append.mp member with inWord | line
  · exact Mode.not_mem_of_isWord each inWord
  · exact absurd (List.mem_singleton.mp line) (by decide)

/-! ## Values -/

/-- A piece of text that is read as the value of an entry, up to the end of its line. -/
def Spells (chars : List Char) (node : Node) : Prop :=
  ∃ tokens, Cut ' ' (chars ++ ['\n']) (tokens ++ [.newline]) ∧ ∀ sections path,
    Reading.run ⟨sections, .value [.entry path]⟩ tokens =
      some ⟨sections, .finished node [.entry path]⟩

def textNode (text : String) : Node := .leaf (.text text)

theorem not_mem_quote (text : String) : '\r' ∉ quote text := by
  intro member
  rcases isPlain_of_mem_quote member with plain | line
  · cases plain
  · cases line

theorem spells_quote (text : String) : Spells (quote text) (textNode text) := by
  obtain ⟨tripled, delivers⟩ := exists_delivers_quote text
  have ended : Cut ' ' ['\n'] [.newline] := .of_run (by decide) rfl (by decide) (by decide)
  exact ⟨[.text tripled text], ended.delivered (not_mem_quote text) (delivers ' ') (by decide)
    (by decide), fun sections path => rfl⟩

/-- The items of a list on lines of their own. -/
theorem exists_tokens_items (texts : List String) :
    ∃ tokens, Cut ' ' (texts.flatMap fun text =>
        [' ', ' ', ' ', ' '] ++ quote text ++ [',', '\n']) tokens ∧
      ∀ done sections path, Reading.run ⟨sections, .item [.items done, .entry path]⟩ tokens =
        some ⟨sections, .item [.items ((texts.map textNode).reverse ++ done), .entry path]⟩ := by
  induction texts with
  | nil => exact ⟨[], .of_run (by decide) rfl (by decide) (by decide), fun _ _ _ => rfl⟩
  | cons text rest ih =>
      obtain ⟨tokens, cut, reached⟩ := ih
      obtain ⟨tripled, delivers⟩ := exists_delivers_quote text
      have ended : Cut ' ' [',', '\n'] [.comma, .newline] :=
        .of_run (by decide) rfl (by decide) (by decide)
      have blanks : Cut ' ' [' ', ' ', ' ', ' '] [] :=
        .of_run (by decide) rfl (by decide) (by decide)
      have here := blanks.append
        (ended.delivered (not_mem_quote text) (delivers ' ') (by decide) (by decide))
      refine ⟨.text tripled text :: .comma :: .newline :: tokens, ?_, fun done sections path => ?_⟩
      · rw [List.flatMap_cons]
        exact here.append cut
      · change Reading.run ⟨sections, .item [.items (textNode text :: done), .entry path]⟩
          tokens = _
        rw [reached, List.map_cons, List.reverse_cons, List.append_assoc]
        rfl

theorem spells_quoteList (texts : List String) :
    Spells (quoteList texts) (.list (texts.map textNode)) := by
  match texts with
  | [] =>
      exact ⟨[.openBracket false, .closeBracket false],
        .of_run (by decide) rfl (by decide) (by decide), fun sections path => rfl⟩
  | [text] =>
      obtain ⟨tripled, delivers⟩ := exists_delivers_quote text
      have ended : Cut ' ' [']', '\n'] [.closeBracket false, .newline] :=
        .of_run (by decide) rfl (by decide) (by decide)
      refine ⟨[.openBracket false, .text tripled text, .closeBracket false], ?_,
        fun sections path => rfl⟩
      change Cut ' ' ('[' :: quote text ++ [']'] ++ ['\n']) _
      rw [List.append_assoc]
      exact .cons (by decide) rfl
        (ended.delivered (not_mem_quote text) (delivers '[') (by decide) (by decide))
  | first :: second :: rest =>
      obtain ⟨tokens, cut, reached⟩ := exists_tokens_items (first :: second :: rest)
      have opened : Cut ' ' ['[', '\n'] [.openBracket false, .newline] :=
        .of_run (by decide) rfl (by decide) (by decide)
      have closed : Cut ' ' [']', '\n'] ([.closeBracket false] ++ [.newline]) :=
        .of_run (by decide) rfl (by decide) (by decide)
      refine ⟨.openBracket false :: .newline :: (tokens ++ [.closeBracket false]), ?_,
        fun sections path => ?_⟩
      · have whole := opened.append (cut.append closed)
        rw [← List.append_assoc tokens] at whole
        change Cut ' '
          ('[' :: '\n' :: List.flatMap _ (first :: second :: rest) ++ [']'] ++ ['\n']) _
        rw [List.append_assoc]
        exact whole
      · change Reading.run ⟨sections, .item [.items [], .entry path]⟩ (tokens ++ _) = _
        rw [Reading.run_append, reached, List.append_nil]
        change some (Reading.mk sections (.finished (.list (List.reverse (List.reverse _))) _)) = _
        rw [List.reverse_reverse]

/-! ## Numbers and truth values -/

variable {chars : List Char}

theorem run_cons_of_step {reading next : Reading} {token : Token}
    (stepped : reading.step token = some next) (rest : List Token) :
    reading.run (token :: rest) = next.run rest := by
  rw [Reading.run, stepped]

theorem spells_word {node : Node} (nonempty : chars ≠ [])
    (each : ∀ c ∈ chars, Mode.isWord c = true) (read : Reading.wordNode? chars = some node) :
    Spells chars node := by
  refine ⟨[.word chars], cut_word nonempty each, fun sections path => ?_⟩
  have stepped : Reading.step ⟨sections, .value [.entry path]⟩ (.word chars) =
      some ⟨sections, .finished node [.entry path]⟩ := by
    change (Reading.value? _ _).map _ = _
    rw [Reading.value?, read]
    rfl
  rw [run_cons_of_step stepped]
  rfl

namespace Moment

theorem isDigit_of_digits? {width value : Nat} {digits rest : List Char}
    (each : ∀ c ∈ chars, Numeral.IsDigit c)
    (found : digits? width chars = some (digits, value, rest)) : ∀ c ∈ rest, Numeral.IsDigit c := by
  simp only [digits?] at found
  split at found
  · obtain ⟨read, -, same⟩ := Option.map_eq_some_iff.mp found
    simp only [Prod.mk.injEq] at same
    obtain ⟨-, -, rfl⟩ := same
    exact fun c member => each c (List.mem_of_mem_drop member)
  · cases found

/-- A hyphen would stand after the fourth digit. -/
theorem date?_digits (each : ∀ c ∈ chars, Numeral.IsDigit c) : date? chars = none := by
  unfold date?
  cases found : digits? 4 chars with
  | none => rfl
  | some read =>
      obtain ⟨digits, year, rest⟩ := read
      have later := isDigit_of_digits? each found
      simp only [Option.bind_eq_bind, Option.bind_some]
      split
      · exact absurd (later '-' List.mem_cons_self) (by decide)
      · rfl

/-- A colon would stand after the second digit. -/
theorem hourMinute?_digits (each : ∀ c ∈ chars, Numeral.IsDigit c) : hourMinute? chars = none := by
  unfold hourMinute?
  cases found : digits? 2 chars with
  | none => rfl
  | some read =>
      obtain ⟨digits, hour, rest⟩ := read
      have later := isDigit_of_digits? each found
      simp only [Option.bind_eq_bind, Option.bind_some]
      split
      · exact absurd (later ':' List.mem_cons_self) (by decide)
      · rfl

theorem ofChars?_digits (each : ∀ c ∈ chars, Numeral.IsDigit c) : ofChars? chars = none := by
  rw [ofChars?, date?_digits each, time?, hourMinute?_digits each]
  rfl

end Moment

namespace Scalar

theorem ungroup?_digits (nonempty : chars ≠ []) (each : ∀ c ∈ chars, Numeral.IsDigit c) :
    ungroup? Char.isDigit chars = some chars := by
  induction chars with
  | nil => exact absurd rfl nonempty
  | cons c rest ih =>
      obtain ⟨here, there⟩ := List.forall_mem_cons.mp each
      have digit := Numeral.isDigit_iff.mpr here
      cases rest with
      | nil => rw [ungroup?, if_pos digit]
      | cons d others =>
          have other : d ≠ '_' := by
            rintro rfl
            exact absurd (there '_' List.mem_cons_self) (by decide)
          rw [ungroup?, if_pos digit, ih (List.cons_ne_nil _ _) there, Option.map_some]
          · exact List.cons_ne_nil _ _
          · exact fun rest same => other (List.cons.inj same).1

theorem whole?_digits (value : Nat) :
    whole? (Numeral.digits value) = some (Numeral.digits value) := by
  rw [whole?, ungroup?_digits (Numeral.digits_ne_nil value) fun c => Numeral.isDigit_of_mem_digits]
  split
  · rename_i zeros
    cases Numeral.digits_head (Option.some.inj zeros)
  · rfl

theorem splitSign_digits (each : ∀ c ∈ chars, Numeral.IsDigit c) :
    splitSign chars = (false, chars) := by
  unfold splitSign
  split
  · exact absurd (each '-' List.mem_cons_self) (by decide)
  · exact absurd (each '+' List.mem_cons_self) (by decide)
  · rfl

theorem int?_eq_decimalInt? (each : ∀ c ∈ chars, Numeral.IsDigit c) :
    int? chars = decimalInt? chars := by
  unfold int?
  split
  · exact absurd (each _ (List.mem_cons_of_mem _ List.mem_cons_self)) (by decide)
  · exact absurd (each _ (List.mem_cons_of_mem _ List.mem_cons_self)) (by decide)
  · exact absurd (each _ (List.mem_cons_of_mem _ List.mem_cons_self)) (by decide)
  · rfl

theorem ofChars?_digits {value : Nat} (small : value ≤ Numeral.maxInt) :
    ofChars? (Numeral.digits value) = some (.int value) := by
  have each : ∀ c ∈ Numeral.digits value, Numeral.IsDigit c :=
    fun c => Numeral.isDigit_of_mem_digits
  have word : bool? (Numeral.digits value) = none := by
    have other {word : List Char} (letter : ∃ c ∈ word, ¬Numeral.IsDigit c) :
        Numeral.digits value ≠ word := by
      rintro rfl
      obtain ⟨c, member, strange⟩ := letter
      exact strange (each c member)
    rw [bool?, if_neg (other ⟨'t', by decide, by decide⟩),
      if_neg (other ⟨'f', by decide, by decide⟩)]
  have read : int? (Numeral.digits value) = some (value : Int) := by
    rw [int?_eq_decimalInt? each, decimalInt?, splitSign_digits each]
    simp only [whole?_digits, Numeral.decimal?_digits, Option.bind_eq_bind, Option.bind_some,
      Bool.false_eq_true, if_false, if_pos small]
    rfl
  rw [ofChars?, word, read]

end Scalar

theorem spells_number {value : Nat} (small : value ≤ Numeral.maxInt) :
    Spells (Numeral.digits value) (.leaf (.int value)) := by
  have each : ∀ c ∈ Numeral.digits value, Numeral.IsDigit c :=
    fun c => Numeral.isDigit_of_mem_digits
  refine spells_word (Numeral.digits_ne_nil value)
    (fun c member => Mode.isWord_of_isDigit (each c member)) ?_
  rw [Reading.wordNode?, Moment.ofChars?_digits each, Scalar.ofChars?_digits small]
  rfl

theorem spells_true : Spells ['t', 'r', 'u', 'e'] (.leaf (.bool true)) :=
  spells_word (by decide) (List.all_eq_true.mp rfl) rfl

theorem spells_false : Spells ['f', 'a', 'l', 's', 'e'] (.leaf (.bool false)) :=
  spells_word (by decide) (List.all_eq_true.mp rfl) rfl

end PackedTables.Toml
