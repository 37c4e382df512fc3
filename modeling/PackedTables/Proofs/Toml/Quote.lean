import PackedTables.Proofs.Toml.Token
import PackedTables.Toml.Quote

/-!
# Reading quoted texts back

A text is read back from any of the four forms in which it may be quoted.  Between the marks each
character leads, as it stands or by its escape, to itself; marks that stand for themselves are too
few in a row to end the text.
-/

namespace PackedTables.Toml

/-! ## Escapes -/

theorem Mode.isPlain_of_isControl_eq_false {c : Char} (visible : QuoteForm.isControl c = false)
    (line : c ≠ '\n') : isPlain c = true := by
  simp only [QuoteForm.isControl, Bool.or_eq_false_iff, Bool.and_eq_false_iff,
    decide_eq_false_iff_not, bne_eq_false_iff_eq, beq_eq_false_iff_ne] at visible
  simp only [isPlain, Bool.or_eq_true, beq_iff_eq, Bool.and_eq_true, decide_eq_true_eq, bne_iff_ne]
  obtain ⟨(low | tab) | line', other⟩ := visible
  · exact .inr ⟨by omega, other⟩
  · exact .inl tab
  · exact absurd line' line

namespace QuoteForm

theorem hexDigit_read (value : Nat) :
    Numeral.digitValue? (hexDigit value) = some (value % 16) ∧
      Mode.isPlain (hexDigit value) = true := by
  have small : value % 16 < 16 := Nat.mod_lt _ (by decide)
  unfold hexDigit
  generalize value % 16 = residue at small
  revert residue
  decide

/-- A character is escaped by a letter, by its number or not at all. -/
theorem escapeChar_cases (keepLines : Bool) (c : Char) :
    (∃ letter, Mode.escaped? letter = some c ∧ Mode.isPlain letter = true ∧
        escapeChar keepLines c = ['\\', letter]) ∨
      (keepLines = true ∧ c = '\n' ∧ escapeChar keepLines c = ['\n']) ∨
      (isControl c = true ∧ escapeChar keepLines c =
        ['\\', 'u', '0', '0', hexDigit (c.toNat / 16), hexDigit c.toNat]) ∨
      (c ≠ '\\' ∧ Mode.isPlain c = true ∧ escapeChar keepLines c = [c]) := by
  unfold escapeChar
  split
  · exact .inl ⟨'\\', by rw [‹c = _›]; rfl, rfl, rfl⟩
  split
  · exact .inl ⟨'t', by rw [‹c = _›]; rfl, rfl, rfl⟩
  split
  · split
    · exact .inr (.inl ⟨‹_›, ‹_›, rfl⟩)
    · exact .inl ⟨'n', by rw [‹c = _›]; rfl, rfl, rfl⟩
  split
  · exact .inl ⟨'r', by rw [‹c = _›]; rfl, rfl, rfl⟩
  split
  · exact .inl ⟨'b', by rw [‹c = _›]; rfl, rfl, rfl⟩
  split
  · exact .inl ⟨'f', by rw [‹c = _›]; rfl, rfl, rfl⟩
  split
  · exact .inr (.inr (.inl ⟨‹_›, rfl⟩))
  · rename_i visible
    have plain : Mode.isPlain c = true :=
      Mode.isPlain_of_isControl_eq_false (by simpa using visible) ‹_›
    exact .inr (.inr (.inr ⟨‹_›, plain, rfl⟩))

end QuoteForm

namespace Mode

variable {tripled keepLines : Bool} {seen : List Char} {c mark : Char}

theorem isPlain_or_eq_newline (visible : QuoteForm.isControl c = false) :
    isPlain c = true ∨ c = '\n' := by
  by_cases line : c = '\n'
  · exact .inr line
  · exact .inl (isPlain_of_isControl_eq_false visible line)

theorem step_resume (plain : isPlain c = true) (quote : c ≠ '"') (slash : c ≠ '\\') :
    step (resume tripled seen) c = some ([], resume tripled (c :: seen)) := by
  cases tripled with
  | false =>
      change quote? '"' seen c = _
      rw [quote?, if_neg quote, if_neg fun both => slash both.1, if_pos plain]
      rfl
  | true =>
      change lines? '"' seen 0 c = _
      rw [lines?, if_neg quote, if_neg (by decide)]
      exact (if_neg fun both => slash both.1).trans (if_pos (.inr plain))

theorem leads_code (small : c.toNat < 0x80) : Leads (resume tripled seen)
    ['\\', 'u', '0', '0', QuoteForm.hexDigit (c.toNat / 16), QuoteForm.hexDigit c.toNat]
    (resume tripled (c :: seen)) := by
  have begun : Leads (resume tripled seen) ['\\', 'u', '0', '0'] (.code tripled seen 2 0) := by
    cases tripled <;> rfl
  have high : step (.code tripled seen 2 0) (QuoteForm.hexDigit (c.toNat / 16)) =
      some ([], .code tripled seen 1 (c.toNat / 16)) := by
    rw [step, code?, (QuoteForm.hexDigit_read _).1]
    simp only [Nat.zero_mul, Nat.zero_add, Nat.one_lt_two, if_true]
    rw [Nat.mod_eq_of_lt (by omega)]
  have low : step (.code tripled seen 1 (c.toNat / 16)) (QuoteForm.hexDigit c.toNat) =
      some ([], resume tripled (c :: seen)) := by
    have whole : c.toNat / 16 * 16 + c.toNat % 16 = c.toNat := by omega
    have scalar : isScalar c.toNat = true := by
      simp only [isScalar, Bool.or_eq_true, decide_eq_true_eq]
      omega
    rw [step, code?, (QuoteForm.hexDigit_read _).1]
    simp only [whole, Nat.lt_irrefl, if_false, scalar, if_true, Char.ofNat_toNat]
  exact begun.append (.cons high (.cons low (.nil _)))

theorem step_escape {letter : Char} (known : escaped? letter = some c) :
    step (.escape tripled seen) letter = some ([], resume tripled (c :: seen)) := by
  have other {special : Char} (unknown : escaped? special = none) : letter ≠ special := by
    rintro rfl
    rw [known] at unknown
    cases unknown
  have gap : isGap letter = false := by
    have blank : escaped? ' ' = none := rfl
    have tab : escaped? '\t' = none := rfl
    simp [isGap, other blank, other tab]
  rw [step, escape?, if_neg (other rfl), if_neg (other rfl), gap, if_neg (by simp),
    if_neg fun both => other rfl both.2, known]
  rfl

/-- An escaped character leads to itself; only lines may keep a line end. -/
theorem leads_escapeChar (lines : keepLines = true → tripled = true) (quote : c ≠ '"') :
    Leads (resume tripled seen) (QuoteForm.escapeChar keepLines c)
      (resume tripled (c :: seen)) := by
  rcases QuoteForm.escapeChar_cases keepLines c with ⟨letter, known, -, same⟩ |
    ⟨kept, rfl, same⟩ | ⟨control, same⟩ | ⟨slash, plain, same⟩
  · have slash : step (resume tripled seen) '\\' = some ([], .escape tripled seen) := by
      cases tripled <;> rfl
    rw [same]
    exact .cons slash (.cons (step_escape known) (.nil _))
  · rw [same, lines kept]
    rfl
  · rw [same]
    refine leads_code ?_
    simp only [QuoteForm.isControl, Bool.or_eq_true, Bool.and_eq_true, decide_eq_true_eq,
      beq_iff_eq] at control
    omega
  · rw [same]
    exact .cons (step_resume plain quote slash) (.nil _)

/-! ## Texts between single marks -/

theorem leads_escapeFrom (seen text : List Char) : Leads (.quote '"' seen)
    (QuoteForm.escapeFrom false 0 0 text) (.quote '"' (text.reverse ++ seen)) := by
  induction text generalizing seen with
  | nil => exact .nil _
  | cons c rest ih =>
      rw [QuoteForm.escapeFrom, List.reverse_cons, List.append_assoc]
      split
      · rename_i quote
        subst quote
        exact .cons rfl (.cons rfl (ih _))
      · rename_i quote
        have escaped : Leads (resume false seen) (QuoteForm.escapeChar false c) _ :=
          leads_escapeChar (fun lines => lines) quote
        exact escaped.append (ih _)

theorem leads_literal (seen : List Char) {text : List Char}
    (plain : ∀ c ∈ text, isPlain c = true ∧ c ≠ '\'') :
    Leads (.quote '\'' seen) text (.quote '\'' (text.reverse ++ seen)) := by
  induction text generalizing seen with
  | nil => exact .nil _
  | cons c rest ih =>
      obtain ⟨⟨visible, apostrophe⟩, there⟩ := List.forall_mem_cons.mp plain
      have stepped : step (.quote '\'' seen) c = some ([], .quote '\'' (c :: seen)) := by
        rw [step, quote?, if_neg apostrophe, if_neg (by simp), if_pos visible]
      rw [List.reverse_cons, List.append_assoc]
      exact .cons stepped (ih _ there)

/-- Two marks are an empty text; otherwise the second mark ends the text. -/
theorem delivers_single {text inner : List Char} (marks : mark = '"' ∨ mark = '\'')
    (empty : text = [] → inner = [])
    (leads : Leads (.quote mark []) inner (.quote mark text.reverse)) (previous : Char) :
    Delivers (.between previous) (mark :: inner ++ [mark]) (.text false (String.ofList text)) := by
  have opened : Leads (.between previous) [mark] (.quote mark []) := by
    rcases marks with rfl | rfl <;> rfl
  change Delivers _ ([mark] ++ (inner ++ [mark])) _
  refine opened.delivers ?_
  cases text with
  | nil =>
      rw [empty rfl, List.nil_append, ← List.append_nil [mark]]
      have second : Leads (.quote mark []) [mark] (.twoMarks mark) := by
        rcases marks with rfl | rfl <;> rfl
      refine second.delivers (delivers_of_after fun c quote apostrophe => ?_)
      rw [step, if_neg (by rcases marks with rfl | rfl <;> assumption)]
      rfl
  | cons c rest =>
      refine leads.delivers (delivers_mark ?_ ?_ ?_)
      · rcases marks with rfl | rfl <;> decide
      · rcases marks with rfl | rfl <;> decide
      · have begun : (c :: rest).reverse.isEmpty = false := by simp
        rw [step, quote?, if_pos rfl, begun, if_neg (by decide), ofSeen, List.reverse_reverse]

/-! ## Texts between three marks -/

variable {marks : Nat}

/-- Marks that were seen belong to the text when another character follows. -/
theorem step_lines (few : marks ≤ 2) (other : c ≠ mark) :
    step (.lines mark seen marks) c =
      step (.lines mark (List.replicate marks mark ++ seen) 0) c := by
  change lines? mark seen marks c = lines? mark _ 0 c
  simp only [lines?, if_neg other, if_neg (show ¬3 ≤ marks by omega),
    if_neg (show ¬3 ≤ 0 by decide), List.replicate_zero, List.nil_append]

theorem leads_lines {next : Mode} {rest : List Char} (few : marks ≤ 2) (other : c ≠ mark)
    (leads : Leads (.lines mark (List.replicate marks mark ++ seen) 0) (c :: rest) next) :
    Leads (.lines mark seen marks) (c :: rest) next := by
  rw [Leads, run, step_lines few other]
  exact leads

theorem step_lines_mark (few : marks ≤ 4) :
    step (.lines mark seen marks) mark = some ([], .lines mark seen (marks + 1)) := by
  rw [step, lines?, if_pos rfl, if_neg (by omega)]

theorem exists_cons_escapeChar (keepLines : Bool) (quote : c ≠ '"') :
    ∃ head rest, QuoteForm.escapeChar keepLines c = head :: rest ∧ head ≠ '"' := by
  rcases QuoteForm.escapeChar_cases keepLines c with ⟨letter, -, -, same⟩ | ⟨-, -, same⟩ |
    ⟨-, same⟩ | ⟨-, -, same⟩
  · exact ⟨_, _, same, by decide⟩
  · exact ⟨_, _, same, by decide⟩
  · exact ⟨_, _, same, by decide⟩
  · exact ⟨_, _, same, quote⟩

/-- What has been read up to some place between three marks, with at most two marks at its end. -/
def LeadsLines (mark : Char) (seen : List Char) (marks : Nat) (chars read : List Char) : Prop :=
  ∃ later last, last ≤ 2 ∧ Leads (.lines mark seen marks) chars (.lines mark later last) ∧
    List.replicate last mark ++ later = read.reverse ++ (List.replicate marks mark ++ seen)

theorem leadsLines_escapeFrom (few : marks ≤ 2) (seen text : List Char) :
    LeadsLines '"' seen marks (QuoteForm.escapeFrom true 2 marks text) text := by
  induction text generalizing seen marks with
  | nil => exact ⟨seen, marks, few, .nil _, rfl⟩
  | cons c rest ih =>
      rw [QuoteForm.escapeFrom]
      split
      · rename_i quote
        subst quote
        split
        · rename_i more
          obtain ⟨later, last, small, leads, same⟩ := ih (show marks + 1 ≤ 2 from more) seen
          refine ⟨later, last, small, .cons (step_lines_mark (by omega)) leads, ?_⟩
          rw [same, List.replicate_succ, List.reverse_cons, List.append_assoc]
          rfl
        · obtain ⟨later, last, small, leads, same⟩ :=
            ih (show 0 ≤ 2 by decide) ('"' :: (List.replicate marks '"' ++ seen))
          refine ⟨later, last, small, leads_lines few (by decide) ?_, ?_⟩
          · exact .cons rfl (.cons rfl leads)
          · rw [same, List.reverse_cons, List.append_assoc]
            rfl
      · rename_i quote
        obtain ⟨later, last, small, leads, same⟩ :=
          ih (show 0 ≤ 2 by decide) (c :: (List.replicate marks '"' ++ seen))
        have escaped : Leads (resume true (List.replicate marks '"' ++ seen))
            (QuoteForm.escapeChar true c) _ := leads_escapeChar (fun lines => lines) quote
        refine ⟨later, last, small, ?_, ?_⟩
        · have whole := escaped.append leads
          obtain ⟨head, others, spelled, other⟩ := exists_cons_escapeChar true quote
          rw [spelled] at whole ⊢
          exact leads_lines few other whole
        · rw [same, List.reverse_cons, List.append_assoc]
          rfl

theorem le_longestRun (mark : Char) (current : Nat) (chars : List Char) :
    current ≤ QuoteForm.longestRun mark current chars := by
  induction chars generalizing current with
  | nil => exact Nat.le_refl _
  | cons c rest ih =>
      rw [QuoteForm.longestRun]
      split
      · exact Nat.le_trans (Nat.le_succ _) (ih _)
      · exact Nat.le_max_left _ _

theorem leadsLines_literal (seen : List Char) {text : List Char}
    (plain : ∀ c ∈ text, isPlain c = true ∨ c = '\n')
    (few : QuoteForm.longestRun '\'' marks text ≤ 2) : LeadsLines '\'' seen marks text text := by
  induction text generalizing seen marks with
  | nil => exact ⟨seen, marks, few, .nil _, rfl⟩
  | cons c rest ih =>
      obtain ⟨here, there⟩ := List.forall_mem_cons.mp plain
      have now := Nat.le_trans (le_longestRun '\'' marks (c :: rest)) few
      rw [QuoteForm.longestRun] at few
      split at few
      · rename_i apostrophe
        subst apostrophe
        obtain ⟨later, last, small, leads, same⟩ := ih seen there few
        refine ⟨later, last, small, .cons (step_lines_mark (by omega)) leads, ?_⟩
        rw [same, List.replicate_succ, List.reverse_cons, List.append_assoc]
        rfl
      · rename_i apostrophe
        obtain ⟨later, last, small, leads, same⟩ :=
          ih (c :: (List.replicate marks '\'' ++ seen)) there
            (show QuoteForm.longestRun '\'' 0 rest ≤ 2 from Nat.le_trans (Nat.le_max_right _ _) few)
        have stepped (seen : List Char) :
            step (.lines '\'' seen 0) c = some ([], .lines '\'' (c :: seen) 0) := by
          rw [step, lines?, if_neg apostrophe, if_neg (by decide)]
          exact (if_neg (by simp)).trans (if_pos here.symm)
        refine ⟨later, last, small, leads_lines now apostrophe (.cons (stepped _) leads), ?_⟩
        rw [same, List.reverse_cons, List.append_assoc]
        rfl

theorem LeadsLines.delivers {text inner : List Char} (quotes : mark = '"' ∨ mark = '\'')
    (leads : LeadsLines mark [] 0 inner text) :
    Delivers (.lines mark [] 0) (inner ++ List.replicate 3 mark)
      (.text true (String.ofList text)) := by
  obtain ⟨later, last, small, leads, same⟩ := leads
  have closing : Leads (.lines mark later last) (List.replicate 3 mark)
      (.lines mark later (last + 3)) :=
    .cons (step_lines_mark (by omega)) (.cons (step_lines_mark (by omega))
      (.cons (step_lines_mark (by omega)) (.nil _)))
  refine leads.delivers ?_
  rw [← List.append_nil (List.replicate 3 mark)]
  refine closing.delivers (delivers_of_after fun c quote apostrophe => ?_)
  have read : List.replicate last mark ++ later = text.reverse := by simpa using same
  rw [step, lines?, if_neg (by rcases quotes with rfl | rfl <;> assumption), if_pos (by omega),
    Nat.add_sub_cancel, read, ofSeen, List.reverse_reverse]

/-- The line end after the first marks is written when the text could start with one. -/
theorem delivers_enclose {text inner : List Char} {token : Token}
    (quotes : mark = '"' ∨ mark = '\'') (lines : '\n' ∉ text → '\n' ∉ inner)
    (delivers : Delivers (.lines mark [] 0) (inner ++ List.replicate 3 mark) token)
    (previous : Char) :
    Delivers (.between previous) (QuoteForm.enclose mark text inner) token := by
  have opened : Leads (.between previous) (List.replicate 3 mark) (.threeMarks mark) := by
    rcases quotes with rfl | rfl <;> rfl
  unfold QuoteForm.enclose
  rw [List.append_assoc, List.append_assoc]
  refine opened.delivers ?_
  by_cases lined : text.contains '\n' = true
  · rw [if_pos lined, List.singleton_append]
    have first : Leads (.threeMarks mark) ['\n'] (.lines mark [] 0) := rfl
    exact first.delivers delivers
  · rw [if_neg lined, List.nil_append]
    have unlined := lines (by simpa using lined)
    intro c rest quote apostrophe
    rw [← delivers c rest quote apostrophe]
    -- The first character is one of the text, or a mark.
    have other (head : Char) (others : List Char) (line : head ≠ '\n') :
        run (.threeMarks mark) (head :: others) = run (.lines mark [] 0) (head :: others) := by
      rw [run, run, step, if_neg line]
      rfl
    cases inner with
    | nil => exact other _ _ (by rcases quotes with rfl | rfl <;> decide)
    | cons head others =>
        refine other head _ ?_
        rintro rfl
        exact unlined List.mem_cons_self

end Mode

/-! ## All forms -/

namespace QuoteForm

variable {text : List Char}

theorem not_mem_of_longestRun {mark : Char} (none : longestRun mark 0 text = 0) : mark ∉ text := by
  induction text with
  | nil => exact List.not_mem_nil
  | cons c rest ih =>
      rw [longestRun] at none
      split at none
      · have some := Mode.le_longestRun mark (0 + 1) rest
        omega
      · rename_i other
        rw [List.mem_cons, not_or]
        exact ⟨Ne.symm other, ih (by omega)⟩

/-- Without escapes nothing is written that could not be read. -/
theorem choose_cases (text : List Char) :
    choose text = basic ∨ choose text = basicLines ∨
      (choose text = literal ∧ (∀ c ∈ text, isControl c = false) ∧ '\'' ∉ text ∧ '\n' ∉ text) ∨
      (choose text = literalLines ∧ (∀ c ∈ text, isControl c = false) ∧
        longestRun '\'' 0 text ≤ 2) := by
  simp only [choose]
  split
  · exact .inl rfl
  split
  · rename_i fits
    simp only [Bool.and_eq_true, Bool.not_eq_true', List.any_eq_false, beq_iff_eq,
      List.contains_eq_mem, decide_eq_false_iff_not] at fits
    obtain ⟨⟨visible, none⟩, unlined⟩ := fits
    exact .inr (.inr (.inl ⟨rfl, fun c member => by simpa using visible c member,
      not_mem_of_longestRun none, unlined⟩))
  split
  · exact .inr (.inl rfl)
  split
  · rename_i fits
    simp only [Bool.and_eq_true, Bool.not_eq_true', List.any_eq_false, decide_eq_true_eq] at fits
    obtain ⟨visible, few⟩ := fits
    exact .inr (.inr (.inr ⟨rfl, fun c member => by simpa using visible c member, few⟩))
  split
  · exact .inr (.inl rfl)
  · exact .inl rfl

theorem isPlain_of_mem_escapeChar {keepLines : Bool} {c d : Char}
    (member : d ∈ escapeChar keepLines c) : Mode.isPlain d = true ∨ d = '\n' ∧ c = '\n' := by
  have listed {chars : List Char} (plain : chars.all Mode.isPlain = true)
      (member : d ∈ chars) : Mode.isPlain d = true ∨ d = '\n' ∧ c = '\n' :=
    .inl (List.all_eq_true.mp plain d member)
  rcases escapeChar_cases keepLines c with ⟨letter, -, plain, same⟩ | ⟨-, rfl, same⟩ |
    ⟨-, same⟩ | ⟨-, plain, same⟩
  · rw [same] at member
    exact listed (by rw [List.all_cons, List.all_cons, plain]; rfl) member
  · rw [same] at member
    exact .inr ⟨List.mem_singleton.mp member, rfl⟩
  · rw [same] at member
    refine listed ?_ member
    simp only [List.all_cons, (hexDigit_read _).2]
    rfl
  · rw [same] at member
    exact listed (by rw [List.all_cons, plain]; rfl) member

theorem isPlain_of_mem_escapeFrom {keepLines : Bool} {most seen : Nat} {d : Char}
    (member : d ∈ escapeFrom keepLines most seen text) :
    Mode.isPlain d = true ∨ d = '\n' ∧ '\n' ∈ text := by
  induction text generalizing seen with
  | nil => cases member
  | cons c rest ih =>
      have later {seen : Nat} (inRest : d ∈ escapeFrom keepLines most seen rest) :
          Mode.isPlain d = true ∨ d = '\n' ∧ '\n' ∈ c :: rest :=
        (ih inRest).imp_right fun both => ⟨both.1, List.mem_cons_of_mem _ both.2⟩
      rw [escapeFrom] at member
      split at member
      · rename_i quote
        subst quote
        split at member
        · rcases List.mem_cons.mp member with rfl | inRest
          · exact .inl rfl
          · exact later inRest
        · rcases List.mem_cons.mp member with rfl | member
          · exact .inl rfl
          rcases List.mem_cons.mp member with rfl | inRest
          · exact .inl rfl
          · exact later inRest
      · rcases List.mem_append.mp member with here | inRest
        · rcases isPlain_of_mem_escapeChar here with plain | ⟨same, line⟩
          · exact .inl plain
          · exact .inr ⟨same, line ▸ List.mem_cons_self⟩
        · exact later inRest

theorem of_mem_enclose {mark c : Char} {inner : List Char} (member : c ∈ enclose mark text inner) :
    c = mark ∨ c = '\n' ∨ c ∈ inner := by
  unfold enclose at member
  rcases List.mem_append.mp member with front | closing
  · rcases List.mem_append.mp front with front | inside
    · rcases List.mem_append.mp front with opening | line
      · exact .inl (List.eq_of_mem_replicate opening)
      · split at line
        · exact .inr (.inl (List.mem_singleton.mp line))
        · cases line
    · exact .inr (.inr inside)
  · exact .inl (List.eq_of_mem_replicate closing)

theorem of_mem_single {mark c : Char} {inner : List Char} (member : c ∈ mark :: inner ++ [mark]) :
    c = mark ∨ c ∈ inner := by
  rcases List.mem_append.mp member with front | closing
  · exact List.mem_cons.mp front
  · exact .inl (List.mem_singleton.mp closing)

end QuoteForm

/-- A quoted text has no control characters but tabs and line ends. -/
theorem isPlain_of_mem_quote {text : String} {c : Char} (member : c ∈ quote text) :
    Mode.isPlain c = true ∨ c = '\n' := by
  unfold quote at member
  rcases QuoteForm.choose_cases text.toList with chosen | chosen | ⟨chosen, visible, -⟩ |
    ⟨chosen, visible, -⟩
  · rw [chosen] at member
    rcases QuoteForm.of_mem_single member with rfl | inside
    · exact .inl rfl
    · exact (QuoteForm.isPlain_of_mem_escapeFrom inside).imp_right And.left
  · rw [chosen] at member
    rcases QuoteForm.of_mem_enclose member with rfl | line | inside
    · exact .inl rfl
    · exact .inr line
    · exact (QuoteForm.isPlain_of_mem_escapeFrom inside).imp_right And.left
  · rw [chosen] at member
    rcases QuoteForm.of_mem_single member with rfl | inside
    · exact .inl rfl
    · exact Mode.isPlain_or_eq_newline (visible c inside)
  · rw [chosen] at member
    rcases QuoteForm.of_mem_enclose member with rfl | line | inside
    · exact .inl rfl
    · exact .inr line
    · exact Mode.isPlain_or_eq_newline (visible c inside)

/-- A quoted text is read as that text, whatever character stood before it. -/
theorem exists_delivers_quote (text : String) : ∃ tripled, ∀ previous,
    Mode.Delivers (.between previous) (quote text) (.text tripled text) := by
  have whole : String.ofList text.toList = text := String.ofList_toList
  unfold quote
  rcases QuoteForm.choose_cases text.toList with chosen | chosen |
    ⟨chosen, visible, apostrophe, line⟩ | ⟨chosen, visible, few⟩
  · refine ⟨false, fun previous => ?_⟩
    have leads := Mode.leads_escapeFrom [] text.toList
    rw [List.append_nil] at leads
    have empty (none : text.toList = []) : QuoteForm.escapeFrom false 0 0 text.toList = [] := by
      rw [none]
      rfl
    have delivers := Mode.delivers_single (.inl rfl) empty leads previous
    rwa [whole, ← QuoteForm.write, ← chosen] at delivers
  · refine ⟨true, fun previous => ?_⟩
    have read := Mode.leadsLines_escapeFrom (show 0 ≤ 2 by decide) [] text.toList
    have unlined (absent : '\n' ∉ text.toList) :
        '\n' ∉ QuoteForm.escapeFrom true 2 0 text.toList := by
      intro member
      rcases QuoteForm.isPlain_of_mem_escapeFrom member with plain | ⟨-, lined⟩
      · cases plain
      · exact absent lined
    have delivers := Mode.delivers_enclose (.inl rfl) unlined (read.delivers (.inl rfl)) previous
    rwa [whole, ← QuoteForm.write, ← chosen] at delivers
  · refine ⟨false, fun previous => ?_⟩
    have leads := Mode.leads_literal [] fun c member =>
      ⟨Mode.isPlain_of_isControl_eq_false (visible c member) fun same => line (same ▸ member),
        fun same => apostrophe (same ▸ member)⟩
    rw [List.append_nil] at leads
    have delivers := Mode.delivers_single (.inr rfl) (fun empty => empty) leads previous
    rwa [whole, ← QuoteForm.write, ← chosen] at delivers
  · refine ⟨true, fun previous => ?_⟩
    have read := Mode.leadsLines_literal []
      (fun c member => Mode.isPlain_or_eq_newline (visible c member)) few
    have delivers := Mode.delivers_enclose (.inr rfl) (fun unlined => unlined)
      (read.delivers (.inr rfl)) previous
    rwa [whole, ← QuoteForm.write, ← chosen] at delivers

end PackedTables.Toml
