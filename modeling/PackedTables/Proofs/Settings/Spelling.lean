import PackedTables.Proofs.Settings.Overlay
import PackedTables.Proofs.Text.Identifier
import PackedTables.Schema.Check
import PackedTables.Settings.Conversion
import PackedTables.Settings.Environment

/-!
# Names in the environment

An identifier in the environment is read as a truth value, as infinity or as no number when it is a
word for one of them, in any case, and as a text otherwise; it is never a numeral.  Taken as a text
after that, such a word has one spelling, and every other identifier is kept as it is.
-/

namespace PackedTables

namespace Identifier

variable {c other : Char}

theorem Starts.ne (starts : Starts c) (strange : isHead other = false) : c ≠ other := by
  rintro rfl
  rw [isHead_iff.mpr starts] at strange
  cases strange

theorem Starts.not_isDigit (starts : Starts c) : ¬Numeral.IsDigit c := by
  have zero : '0'.toNat = 48 := rfl
  have nine : '9'.toNat = 57 := rfl
  have underscore : '_'.toNat = 95 := rfl
  have least : 'A'.toNat = 65 ∧ 'a'.toNat = 97 := ⟨rfl, rfl⟩
  rintro ⟨lower, upper⟩
  simp only [Char.le_def, UInt32.le_iff_toNat_le, Char.toNat_val] at lower upper
  rcases starts with (⟨large, -⟩ | ⟨small, -⟩) | rfl
  · simp only [Char.le_def, UInt32.le_iff_toNat_le, Char.toNat_val] at large
    omega
  · simp only [Char.le_def, UInt32.le_iff_toNat_le, Char.toNat_val] at small
    omega
  · omega

end Identifier

/-! ## Names are no numerals -/

namespace Numeral

variable {head : Char} {tail : List Char}

theorem decimal?_of_starts (starts : Identifier.Starts head) : decimal? (head :: tail) = none := by
  cases read : decimal? (head :: tail) with
  | none => rfl
  | some value =>
      obtain ⟨-, each, -⟩ := decimal?_eq_some_iff.mp read
      exact absurd (each head List.mem_cons_self) starts.not_isDigit

theorem signed?_of_starts (starts : Identifier.Starts head) (greatest : Nat) :
    signed? greatest (head :: tail) = none := by
  have noPlus : unsigned? greatest (head :: tail) = none := by
    unfold unsigned?
    split
    · rename_i same
      exact absurd (List.cons.inj same).1 (starts.ne (by decide))
    · change (decimal? (head :: tail)).filter _ = none
      rw [decimal?_of_starts starts]
      rfl
  unfold signed?
  split
  · rename_i same
    exact absurd (List.cons.inj same).1 (starts.ne (by decide))
  · rw [noPlus]
    rfl

end Numeral

namespace Environment

variable {head : Char} {tail : List Char} {name : String}

theorem splitSign_of_starts (starts : Identifier.Starts head) :
    splitSign (head :: tail) = (false, head :: tail) := by
  unfold splitSign
  split
  · rename_i same
    exact absurd (List.cons.inj same).1 (starts.ne (by decide))
  · rename_i same
    exact absurd (List.cons.inj same).1 (starts.ne (by decide))
  · rfl

/-- Even a name that starts like an exponent has no digits in front of it. -/
theorem decimal?_of_starts (starts : Identifier.Starts head) (negative : Bool) :
    decimal? negative (head :: tail) = none := by
  unfold decimal?
  by_cases mark : isExponentMark head = true
  · simp only [List.takeWhile_cons, mark]
    rfl
  · have pointless : (head != '.') = true := bne_iff_ne.mpr (starts.ne (by decide))
    simp only [List.takeWhile_cons, mark, Bool.not_false, if_true, pointless, List.cons_append,
      Numeral.decimal?_of_starts starts]
    rfl

/-- Names for the standard rules: the empty one, and those that are identifiers. -/
theorem starts_of_checkNamespace (valid : SchemaRules.checkNamespace {} name = .ok ()) :
    name = "" ∨ ∃ head tail, name.toList = head :: tail ∧ Identifier.Starts head := by
  unfold SchemaRules.checkNamespace at valid
  split at valid
  · exact .inl ‹_›
  · rename_i nonempty
    refine .inr ?_
    unfold SchemaRules.checkName SchemaRules.nameFlaw? at valid
    rw [if_neg nonempty] at valid
    by_cases identifier : isIdentifier name = true
    · obtain ⟨head, tail, chars, starts, -⟩ := Identifier.isIdentifier_iff.mp identifier
      exact ⟨head, tail, chars, starts⟩
    · simp [identifier] at valid

/-! ## Spellings -/

/-- The words for truth values, infinity and no number, in lower case. -/
def valueWords : List String := ["true", "false", "inf", "infinity", "nan"]

/-- What a name in the environment is as a text: a word for a value in its one spelling. -/
def spelling (name : String) : String :=
  let word := lowerCase name
  if word = "true" then "true"
  else if word = "false" then "false"
  else if word = "inf" ∨ word = "infinity" then "inf"
  else if word = "nan" then "NaN"
  else name

theorem spelling_of_not_mem (plain : lowerCase name ∉ valueWords) : spelling name = name := by
  simp only [valueWords, List.mem_cons, List.not_mem_nil, or_false, not_or] at plain
  obtain ⟨notTrue, notFalse, notInf, notInfinity, notNan⟩ := plain
  simp only [spelling, notTrue, notFalse, notInf, notInfinity, notNan, if_false, or_self]

theorem spelling_mem (word : lowerCase name ∈ valueWords) :
    spelling name ∈ ["true", "false", "inf", "NaN"] := by
  simp only [valueWords, List.mem_cons, List.not_mem_nil, or_false] at word
  rcases word with word | word | word | word | word <;> simp [spelling, word]

/-- A name is kept when it is no word for a value, or when it is spelled as such a word is. -/
theorem spelling_eq_self_iff :
    spelling name = name ↔
      lowerCase name ∉ valueWords ∨ name ∈ ["true", "false", "inf", "NaN"] := by
  constructor
  · intro kept
    by_cases word : lowerCase name ∈ valueWords
    · rw [← kept]
      exact .inr (spelling_mem word)
    · exact .inl word
  · rintro (plain | spelled)
    · exact spelling_of_not_mem plain
    · exact (show ∀ name ∈ ["true", "false", "inf", "NaN"], spelling name = name by decide)
        name spelled

example : ["TRUE", "Infinity", "nan", "Nancy"].map spelling = ["true", "inf", "NaN", "Nancy"] := by
  decide

theorem float?_of_valid (valid : SchemaRules.checkNamespace {} name = .ok ()) :
    float? name = special? false name.toList := by
  rcases starts_of_checkNamespace valid with rfl | ⟨head, tail, chars, starts⟩
  · rfl
  · rw [float?, chars, splitSign_of_starts starts]
    dsimp only
    rw [decimal?_of_starts starts]
    cases special? false (head :: tail) <;> rfl

theorem signed?_of_valid (valid : SchemaRules.checkNamespace {} name = .ok ()) (greatest : Nat) :
    Numeral.signed? greatest name.toList = none := by
  rcases starts_of_checkNamespace valid with rfl | ⟨head, tail, chars, starts⟩
  · rfl
  · rw [chars]
    exact Numeral.signed?_of_starts starts greatest

theorem isLeaf_valueOf (text : String) : (valueOf text).IsLeaf := by
  unfold valueOf
  split
  · trivial
  · split
    · trivial
    · split <;> trivial

/-- What a name in the environment is read as. -/
theorem valueOf_of_valid (valid : SchemaRules.checkNamespace {} name = .ok ()) :
    valueOf name =
      if lowerCase name = "true" then .bool true
      else if lowerCase name = "false" then .bool false
      else if lowerCase name = "inf" ∨ lowerCase name = "infinity" then .float (.infinite false)
      else if lowerCase name = "nan" then .float .nan
      else .text name := by
  unfold valueOf bool?
  rw [signed?_of_valid valid, float?_of_valid valid, special?, String.ofList_toList]
  dsimp only
  by_cases isTrue : lowerCase name = "true"
  · simp only [if_pos isTrue]
  · by_cases isFalse : lowerCase name = "false"
    · simp only [if_neg isTrue, if_pos isFalse]
    · by_cases infinite : lowerCase name = "inf" ∨ lowerCase name = "infinity"
      · simp only [if_neg isTrue, if_neg isFalse, if_pos infinite]
      · by_cases noNumber : lowerCase name = "nan"
        · simp only [if_neg isTrue, if_neg isFalse, if_neg infinite, if_pos noNumber]
        · simp only [if_neg isTrue, if_neg isFalse, if_neg infinite, if_neg noNumber]

/-- Taken as a text, the value that a name is read as is the spelling of the name. -/
theorem text?_valueOf (valid : SchemaRules.checkNamespace {} name = .ok ()) :
    (valueOf name).text? = some (spelling name) := by
  rw [valueOf_of_valid valid]
  unfold spelling
  dsimp only
  split
  · rfl
  · split
    · rfl
    · split
      · rfl
      · split <;> rfl

end Environment

end PackedTables
