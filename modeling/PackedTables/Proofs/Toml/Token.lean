import PackedTables.Toml.Token

/-!
# Cutting TOML text into tokens

Characters that complete no token lead from mode to mode.  A quoted text is delivered by the
character after it at the latest.  A piece of text that ends between tokens is cut into the same
tokens whatever follows it.
-/

namespace PackedTables.Toml

namespace Mode

/-! ## Runs -/

/-- Characters that complete no token. -/
def Leads (mode : Mode) (chars : List Char) (next : Mode) : Prop := run mode chars = some ([], next)

/-- Characters that have a token completed by the next one, which is no mark of quotation. -/
def Delivers (mode : Mode) (chars : List Char) (token : Token) : Prop :=
  ∀ c rest, c ≠ '"' → c ≠ '\'' → run mode (chars ++ c :: rest) =
    (run (.between ' ') (c :: rest)).map fun read => (token :: read.1, read.2)

theorem run_append_of_run {mode next : Mode} {chars : List Char} {tokens : List Token}
    (reached : run mode chars = some (tokens, next)) (rest : List Char) :
    run mode (chars ++ rest) = (run next rest).map fun read => (tokens ++ read.1, read.2) := by
  rw [run_append, reached, Option.bind_some]

theorem run_cons_of_step {mode next : Mode} {c : Char} {tokens : List Token}
    (stepped : step mode c = some (tokens, next)) (rest : List Char) :
    run mode (c :: rest) = (run next rest).map fun read => (tokens ++ read.1, read.2) := by
  rw [run, stepped]

namespace Leads

variable {mode middle next : Mode} {c : Char} {chars others : List Char} {token : Token}

theorem nil (mode : Mode) : Leads mode [] mode := rfl

theorem cons (stepped : step mode c = some ([], middle)) (leads : Leads middle chars next) :
    Leads mode (c :: chars) next := by
  rw [Leads, run_cons_of_step stepped, leads]
  rfl

theorem append (first : Leads mode chars middle) (second : Leads middle others next) :
    Leads mode (chars ++ others) next := by
  rw [Leads, run_append_of_run first, second]
  rfl

theorem run_append (leads : Leads mode chars next) (rest : List Char) :
    run mode (chars ++ rest) = run next rest := by
  rw [run_append_of_run leads]
  simp

theorem delivers (leads : Leads mode chars middle) (delivers : Delivers middle others token) :
    Delivers mode (chars ++ others) token := by
  intro c rest quote apostrophe
  rw [List.append_assoc, leads.run_append, delivers c rest quote apostrophe]

end Leads

/-- Between tokens the last character counts only when it is a bracket. -/
theorem between?_eq {previous : Char} (opening : previous ≠ '[') (closing : previous ≠ ']')
    (c : Char) : between? previous c = between? ' ' c := by
  have opened : (previous == '[') = (' ' == '[') := beq_eq_false_iff_ne.mpr opening
  have closed : (previous == ']') = (' ' == ']') := beq_eq_false_iff_ne.mpr closing
  by_cases first : c = '['
  · subst first
    rw [between?, between?, opened]
  · by_cases second : c = ']'
    · subst second
      rw [between?, between?, closed]
    · simp only [between?, if_neg first, if_neg second]

theorem delivers_of_after {mode : Mode} {token : Token}
    (ends : ∀ c, c ≠ '"' → c ≠ '\'' → step mode c = after token c) : Delivers mode [] token := by
  intro c rest quote apostrophe
  have stepped := ends c quote apostrophe
  rw [after] at stepped
  rw [List.nil_append]
  cases next : between? ' ' c with
  | none =>
      rw [next] at stepped
      rw [run, stepped, run, step, next]
      rfl
  | some read =>
      have later : step (.between ' ') c = some (read.1, read.2) := next
      rw [next, Option.map_some] at stepped
      rw [run_cons_of_step stepped, run_cons_of_step later, Option.map_map]
      rfl

theorem delivers_mark {mode : Mode} {mark : Char} {token : Token} (opening : mark ≠ '[')
    (closing : mark ≠ ']') (ends : step mode mark = some ([token], .between mark)) :
    Delivers mode [mark] token := by
  intro c rest _ _
  rw [List.singleton_append, run_cons_of_step ends, run, run, step, step,
    between?_eq opening closing]
  rfl

/-! ## Pieces -/

/-- The tokens of text that ends between tokens. -/
def settled? : List Token × Mode → Option (List Token)
  | (tokens, .between _) => some tokens
  | _ => none

def tokensFrom? (previous : Char) (chars : List Char) : Option (List Token) :=
  (run (.between previous) chars).bind settled?

theorem bind_settled?_map (tokens : List Token) (read : Option (List Token × Mode)) :
    (read.map fun read => (tokens ++ read.1, read.2)).bind settled? =
      (read.bind settled?).map (tokens ++ ·) := by
  cases read with
  | none => rfl
  | some read =>
      obtain ⟨later, mode⟩ := read
      cases mode <;> rfl

theorem tokensFrom?_eq {previous : Char} (opening : previous ≠ '[') (closing : previous ≠ ']')
    (chars : List Char) : tokensFrom? previous chars = tokensFrom? ' ' chars := by
  cases chars with
  | nil => rfl
  | cons c rest => rw [tokensFrom?, tokensFrom?, run, run, step, step, between?_eq opening closing]

end Mode

/--
A piece of text that is cut into these tokens after some character, whatever follows it.  It has no
carriage return, so its line ends are in one form.
-/
structure Cut (previous : Char) (chars : List Char) (tokens : List Token) : Prop where
  returns : '\r' ∉ chars
  tokens : ∀ rest, Mode.tokensFrom? previous (chars ++ rest) =
    (Mode.tokensFrom? ' ' rest).map (tokens ++ ·)

namespace Cut

variable {previous c : Char} {chars others : List Char} {token : Token} {tokens more : List Token}

theorem of_run {last : Char} (returns : '\r' ∉ chars)
    (reached : Mode.run (.between previous) chars = some (tokens, .between last))
    (opening : last ≠ '[') (closing : last ≠ ']') : Cut previous chars tokens := by
  refine ⟨returns, fun rest => ?_⟩
  rw [← Mode.tokensFrom?_eq opening closing, Mode.tokensFrom?, Mode.run_append_of_run reached,
    Mode.bind_settled?_map]
  rfl

theorem append (first : Cut previous chars tokens) (second : Cut ' ' others more) :
    Cut previous (chars ++ others) (tokens ++ more) := by
  refine ⟨?_, fun rest => ?_⟩
  · rw [List.mem_append, not_or]
    exact ⟨first.returns, second.returns⟩
  · rw [List.append_assoc, first.tokens, second.tokens, Option.map_map]
    exact congrArg (fun change => (Mode.tokensFrom? ' ' rest).map change)
      (funext fun left => (List.append_assoc _ _ _).symm)

/-- One character that is a token, and what comes after it. -/
theorem cons (visible : c ≠ '\r')
    (stepped : Mode.step (.between previous) c = some ([token], .between c))
    (rest : Cut c chars tokens) : Cut previous (c :: chars) (token :: tokens) := by
  refine ⟨?_, fun later => ?_⟩
  · rw [List.mem_cons, not_or]
    exact ⟨visible.symm, rest.returns⟩
  · rw [List.cons_append, Mode.tokensFrom?, Mode.run_cons_of_step stepped, Mode.bind_settled?_map]
    change (Mode.tokensFrom? c (chars ++ later)).map _ = _
    rw [rest.tokens later, Option.map_map]
    rfl

/-- A quoted text and what comes after it. -/
theorem delivered (returns : '\r' ∉ chars)
    (delivers : Mode.Delivers (.between previous) chars token) (rest : Cut ' ' (c :: others) tokens)
    (quote : c ≠ '"') (apostrophe : c ≠ '\'') :
    Cut previous (chars ++ c :: others) (token :: tokens) := by
  refine ⟨?_, fun later => ?_⟩
  · rw [List.mem_append, not_or]
    exact ⟨returns, rest.returns⟩
  · rw [List.append_assoc, List.cons_append, Mode.tokensFrom?, delivers c _ quote apostrophe]
    change ((Mode.run (.between ' ') (c :: others ++ later)).map
      fun read => ([token] ++ read.1, read.2)).bind Mode.settled? = _
    rw [Mode.bind_settled?_map]
    change (Mode.tokensFrom? ' ' (c :: others ++ later)).map _ = _
    rw [rest.tokens later, Option.map_map]
    rfl

end Cut

theorem unifyLines_eq_self {chars : List Char} (returns : '\r' ∉ chars) :
    unifyLines chars = chars := by
  induction chars with
  | nil => rfl
  | cons c rest ih =>
      rw [List.mem_cons, not_or] at returns
      rw [unifyLines, ih returns.2]
      intro rest same
      exact absurd same (Ne.symm returns.1)

/-- The text of a whole piece has the tokens of the piece, and a last line end. -/
theorem Cut.tokens?_eq {chars : List Char} {tokens : List Token} (cut : Cut ' ' chars tokens) :
    tokens? chars = some (tokens ++ [.newline]) := by
  have whole : Mode.tokensFrom? '\n' (chars ++ ['\n']) = some (tokens ++ [.newline]) := by
    rw [Mode.tokensFrom?_eq (by decide) (by decide), cut.tokens]
    rfl
  rw [tokens?, unifyLines_eq_self cut.returns, ← whole, Mode.tokensFrom?]
  rcases Mode.run (.between '\n') (chars ++ ['\n']) with _ | ⟨read, mode⟩
  · rfl
  · cases mode <;> rfl

end PackedTables.Toml
