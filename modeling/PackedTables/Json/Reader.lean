import PackedTables.Json.Token

/-!
# Reading JSON

Tokens drive a machine with a stack of the arrays and objects that are still open.  A text is a
document when the machine ends on one finished value with nothing open.
-/

namespace PackedTables.Json

/-- What is open around a value: the items or members before it, the last one first. -/
inductive Frame
  | items (done : List Json)
  | members (done : List (MemberName × Json)) (name : MemberName)

inductive State
  | wantValue (stack : List Frame)
  | wantItemOrClose (stack : List Frame)
  | wantNameOrClose (stack : List Frame)
  | wantName (done : List (MemberName × Json)) (stack : List Frame)
  | wantColon (done : List (MemberName × Json)) (name : MemberName) (stack : List Frame)
  | finished (value : Json) (stack : List Frame)

namespace State

def ofText : Option String → Json
  | some value => .text value
  | none => .brokenText

/-- A token where a value must start. -/
def value (stack : List Frame) : Token → Option State
  | .literal value => some (.finished value stack)
  | .text value => some (.finished (ofText value) stack)
  | .openBracket => some (.wantItemOrClose stack)
  | .openBrace => some (.wantNameOrClose stack)
  | _ => none

/-- A token after a finished value. -/
def close (value : Json) : List Frame → Token → Option State
  | .items done :: stack, .comma => some (.wantValue (.items (value :: done) :: stack))
  | .items done :: stack, .closeBracket =>
      some (.finished (.array (value :: done).reverse) stack)
  | .members done name :: stack, .comma => some (.wantName ((name, value) :: done) stack)
  | .members done name :: stack, .closeBrace =>
      some (.finished (.object ((name, value) :: done).reverse) stack)
  | _, _ => none

def step : State → Token → Option State
  | .wantValue stack, token => value stack token
  | .wantItemOrClose stack, .closeBracket => some (.finished (.array []) stack)
  | .wantItemOrClose stack, token => value (.items [] :: stack) token
  | .wantNameOrClose stack, .closeBrace => some (.finished (.object []) stack)
  | .wantNameOrClose stack, .text name => some (.wantColon [] name stack)
  | .wantNameOrClose _, _ => none
  | .wantName done stack, .text name => some (.wantColon done name stack)
  | .wantName _ _, _ => none
  | .wantColon done name stack, .colon => some (.wantValue (.members done name :: stack))
  | .wantColon _ _ _, _ => none
  | .finished value stack, token => close value stack token

def run : State → List Token → Option State
  | state, [] => some state
  | state, token :: rest =>
      match step state token with
      | some next => run next rest
      | none => none

theorem run_append (state : State) (first second : List Token) :
    run state (first ++ second) = (run state first).bind fun next => run next second := by
  induction first generalizing state with
  | nil => rfl
  | cons token rest ih =>
      simp only [List.cons_append, run]
      cases step state token with
      | none => rfl
      | some next => exact ih next

end State

def ofTokens? (tokens : List Token) : Option Json :=
  match State.run (.wantValue []) tokens with
  | some (.finished value []) => some value
  | _ => none

def parse? (text : String) : Option Json := (tokens? text.toList).bind ofTokens?

end PackedTables.Json
