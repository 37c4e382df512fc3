import PackedTables.Proofs.Text.Numeral
import PackedTables.Text.Identifier

/-!
# The pattern of identifiers

A text is an identifier when all of it matches the pattern `[A-Za-z_][A-Za-z0-9_]*`.
-/

namespace PackedTables

namespace Identifier

def IsLetter (c : Char) : Prop := ('A' ≤ c ∧ c ≤ 'Z') ∨ ('a' ≤ c ∧ c ≤ 'z')

/-- The characters of `[A-Za-z_]`. -/
def Starts (c : Char) : Prop := IsLetter c ∨ c = '_'

/-- The characters of `[A-Za-z0-9_]`. -/
def Continues (c : Char) : Prop := Starts c ∨ Numeral.IsDigit c

def Matches (text : String) : Prop :=
  ∃ head tail, text.toList = head :: tail ∧ Starts head ∧ ∀ c ∈ tail, Continues c

theorem isAlpha_iff {c : Char} : c.isAlpha = true ↔ IsLetter c := by
  change (decide ('A' ≤ c ∧ c ≤ 'Z') || (decide ('a' ≤ c) && decide (c ≤ 'z'))) = true ↔ _
  simp only [Bool.or_eq_true, Bool.and_eq_true, decide_eq_true_iff, IsLetter]

theorem isHead_iff {c : Char} : isHead c = true ↔ Starts c := by
  rw [isHead, Bool.or_eq_true, isAlpha_iff, beq_iff_eq, Starts]

theorem isTail_iff {c : Char} : isTail c = true ↔ Continues c := by
  change (c.isAlpha || c.isDigit || c == '_') = true ↔ _
  rw [Bool.or_eq_true, Bool.or_eq_true, isAlpha_iff, Numeral.isDigit_iff, beq_iff_eq,
    or_right_comm, Continues, Starts]

theorem isIdentifier_iff {text : String} : isIdentifier text = true ↔ Matches text := by
  unfold isIdentifier Matches
  cases text.toList with
  | nil => simp [isIdentifierChars]
  | cons head tail =>
      simp only [isIdentifierChars, Bool.and_eq_true, List.all_eq_true, isHead_iff, isTail_iff,
        List.cons.injEq]
      constructor
      · rintro ⟨starts, continues⟩
        exact ⟨head, tail, ⟨rfl, rfl⟩, starts, continues⟩
      · rintro ⟨_, _, ⟨rfl, rfl⟩, starts, continues⟩
        exact ⟨starts, continues⟩

instance (text : String) : Decidable (Matches text) :=
  decidable_of_iff (isIdentifier text = true) isIdentifier_iff

end Identifier

end PackedTables
