import PackedTables.Text.Numeral

/-!
# Tokens of TOML text

The text is read character by character.  A mode says what the last characters began, and a step
answers with the tokens that a character completes and the mode after it.  Line ends are read in one
form, and a last line end is supplied, so that every token is complete before the text ends.
-/

namespace PackedTables.Toml

inductive Token
  | newline
  | equals
  | comma
  | openBrace
  | closeBrace
  /-- A bracket; `joined` when it follows another one without a gap. -/
  | openBracket (joined : Bool)
  | closeBracket (joined : Bool)
  /-- Characters of bare names, numbers and dates. -/
  | word (chars : List Char)
  /-- A quoted text; `tripled` when three marks enclose it. -/
  | text (tripled : Bool) (value : String)
  deriving DecidableEq

/-- What has been begun.  Characters that were seen stand last one first. -/
inductive Mode
  | between (previous : Char)
  | comment
  | word (seen : List Char)
  /-- A date and a blank, after which a time may follow. -/
  | gap (date seen : List Char)
  | quote (mark : Char) (seen : List Char)
  /-- Two marks: an empty text, or the start of three. -/
  | twoMarks (mark : Char)
  /-- Three marks, after which a line end does not count. -/
  | threeMarks (mark : Char)
  /-- Between three marks, `marks` of them being the last characters. -/
  | lines (mark : Char) (seen : List Char) (marks : Nat)
  | escape (tripled : Bool) (seen : List Char)
  | code (tripled : Bool) (seen : List Char) (digits value : Nat)
  /-- After a backslash at the end of a line, which joins it to what follows. -/
  | fold (ended : Bool) (seen : List Char)
  deriving DecidableEq

namespace Mode

def isWord (c : Char) : Bool := c.isAlphanum || ['_', '-', '+', '.', ':'].contains c

/-- A tab, or any character that is not a control character. -/
def isPlain (c : Char) : Bool := c == '\t' || (0x20 ≤ c.toNat && c.toNat != 0x7F)

def isGap (c : Char) : Bool := c == ' ' || c == '\t'

/-- Four digits, two and two, with hyphens between them. -/
def isDate (chars : List Char) : Bool :=
  match chars with
  | [a, b, c, d, '-', e, f, '-', g, h] => [a, b, c, d, e, f, g, h].all Char.isDigit
  | _ => false

def ofSeen (tripled : Bool) (seen : List Char) : Token := .text tripled (String.ofList seen.reverse)

def between? (previous c : Char) : Option (List Token × Mode) :=
  if isGap c then some ([], .between c)
  else if c = '\n' then some ([.newline], .between c)
  else if c = '#' then some ([], .comment)
  else if c = '=' then some ([.equals], .between c)
  else if c = ',' then some ([.comma], .between c)
  else if c = '\x7b' then some ([.openBrace], .between c)
  else if c = '\x7d' then some ([.closeBrace], .between c)
  else if c = '[' then some ([.openBracket (previous == c)], .between c)
  else if c = ']' then some ([.closeBracket (previous == c)], .between c)
  else if c = '"' ∨ c = '\'' then some ([], .quote c [])
  else if isWord c then some ([], .word [c])
  else none

/-- Finish a token, then read on from where nothing is begun. -/
def after (token : Token) (c : Char) : Option (List Token × Mode) :=
  (between? ' ' c).map fun next => (token :: next.1, next.2)

def word? (seen : List Char) (c : Char) : Option (List Token × Mode) :=
  if isWord c then some ([], .word (c :: seen))
  else if c = ' ' ∧ isDate seen.reverse then some ([], .gap seen [])
  else after (.word seen.reverse) c

/-- A time has two digits and a colon; anything else is no part of the date. -/
def gap? (date seen : List Char) (c : Char) : Option (List Token × Mode) :=
  if c.isDigit ∧ seen.length < 2 then some ([], .gap date (c :: seen))
  else if c = ':' ∧ seen.length = 2 then some ([], .word (c :: seen ++ ' ' :: date))
  else
    (if seen.isEmpty then between? ' ' c else word? seen c).map fun next =>
      (.word date.reverse :: next.1, next.2)

def quote? (mark : Char) (seen : List Char) (c : Char) : Option (List Token × Mode) :=
  if c = mark then
    if seen.isEmpty then some ([], .twoMarks mark) else some ([ofSeen false seen], .between c)
  else if c = '\\' ∧ mark = '"' then some ([], .escape false seen)
  else if isPlain c then some ([], .quote mark (c :: seen))
  else none

/-- Up to two marks at the end belong to the text. -/
def lines? (mark : Char) (seen : List Char) (marks : Nat) (c : Char) :
    Option (List Token × Mode) :=
  if c = mark then if marks = 5 then none else some ([], .lines mark seen (marks + 1))
  else if 3 ≤ marks then after (ofSeen true (List.replicate (marks - 3) mark ++ seen)) c
  else
    let seen := List.replicate marks mark ++ seen
    if c = '\\' ∧ mark = '"' then some ([], .escape true seen)
    else if c = '\n' ∨ isPlain c then some ([], .lines mark (c :: seen) 0)
    else none

/-- Where a text goes on after an escape. -/
def resume (tripled : Bool) (seen : List Char) : Mode :=
  if tripled then .lines '"' seen 0 else .quote '"' seen

def escaped? (c : Char) : Option Char :=
  if c = '"' ∨ c = '\\' then some c
  else if c = 'b' then some (Char.ofNat 8)
  else if c = 't' then some '\t'
  else if c = 'n' then some '\n'
  else if c = 'f' then some (Char.ofNat 12)
  else if c = 'r' then some '\r'
  else none

def escape? (tripled : Bool) (seen : List Char) (c : Char) : Option (List Token × Mode) :=
  if c = 'u' then some ([], .code tripled seen 4 0)
  else if c = 'U' then some ([], .code tripled seen 8 0)
  else if tripled ∧ isGap c then some ([], .fold false seen)
  else if tripled ∧ c = '\n' then some ([], .fold true seen)
  else (escaped? c).map fun plain => ([], resume tripled (plain :: seen))

def isScalar (value : Nat) : Bool := value < 0xD800 || (0xE000 ≤ value && value < 0x110000)

def code? (tripled : Bool) (seen : List Char) (digits value : Nat) (c : Char) :
    Option (List Token × Mode) :=
  match Numeral.digitValue? c with
  | none => none
  | some digit =>
      let value := value * 16 + digit
      if 1 < digits then some ([], .code tripled seen (digits - 1) value)
      else if isScalar value then some ([], resume tripled (Char.ofNat value :: seen))
      else none

def fold? (ended : Bool) (seen : List Char) (c : Char) : Option (List Token × Mode) :=
  if isGap c then some ([], .fold ended seen)
  else if c = '\n' then some ([], .fold true seen)
  else if ended then lines? '"' seen 0 c
  else none

def step : Mode → Char → Option (List Token × Mode)
  | .between previous, c => between? previous c
  | .comment, c =>
      if c = '\n' then some ([.newline], .between c)
      else if isPlain c then some ([], .comment)
      else none
  | .word seen, c => word? seen c
  | .gap date seen, c => gap? date seen c
  | .quote mark seen, c => quote? mark seen c
  | .twoMarks mark, c =>
      if c = mark then some ([], .threeMarks mark) else after (ofSeen false []) c
  | .threeMarks mark, c =>
      if c = '\n' then some ([], .lines mark [] 0) else lines? mark [] 0 c
  | .lines mark seen marks, c => lines? mark seen marks c
  | .escape tripled seen, c => escape? tripled seen c
  | .code tripled seen digits value, c => code? tripled seen digits value c
  | .fold ended seen, c => fold? ended seen c

/-- The tokens of some characters, and the mode after them. -/
def run : Mode → List Char → Option (List Token × Mode)
  | mode, [] => some ([], mode)
  | mode, c :: rest =>
      match step mode c with
      | some (tokens, next) => (run next rest).map fun read => (tokens ++ read.1, read.2)
      | none => none

theorem run_append (mode : Mode) (first second : List Char) :
    run mode (first ++ second) = (run mode first).bind fun read =>
      (run read.2 second).map fun more => (read.1 ++ more.1, more.2) := by
  induction first generalizing mode with
  | nil => simp [run]
  | cons c rest ih =>
      simp only [List.cons_append, run]
      cases step mode c with
      | none => rfl
      | some next =>
          simp only [ih]
          cases run next.2 rest with
          | none => rfl
          | some read =>
              simp only [Option.bind_some, Option.map_some]
              cases run read.2 second with
              | none => rfl
              | some more => simp

end Mode

/-- A carriage return counts only before a line feed, where it is dropped. -/
def unifyLines : List Char → List Char
  | [] => []
  | '\r' :: '\n' :: rest => '\n' :: unifyLines rest
  | c :: rest => c :: unifyLines rest

def tokens? (chars : List Char) : Option (List Token) :=
  match Mode.run (.between '\n') (unifyLines chars ++ ['\n']) with
  | some (tokens, .between _) => some tokens
  | _ => none

end PackedTables.Toml
