import PackedTables.Json.Basic

/-!
# Tokens of JSON text

The text is cut into marks, names and literals; blanks between them carry nothing.  Each scanner
answers with what it read and the text left over, which is never longer (`scan_length`).
-/

namespace PackedTables.Json

inductive Token
  | openBrace
  | closeBrace
  | openBracket
  | closeBracket
  | colon
  | comma
  | text (value : Option String)
  | literal (value : Json)

namespace Token

def isBlank (c : Char) : Bool := c == ' ' || c == '\n' || c == '\r' || c == '\t'

/-! ## Texts -/

/-- A character as it stands, or sixteen bits given by an escape. -/
inductive Piece
  | plain (c : Char)
  | unit (value : Nat)

def escaped? (c : Char) : Option Char :=
  if c = '"' ∨ c = '\\' ∨ c = '/' then some c
  else if c = 'b' then some (Char.ofNat 8)
  else if c = 'f' then some (Char.ofNat 12)
  else if c = 'n' then some '\n'
  else if c = 'r' then some '\r'
  else if c = 't' then some '\t'
  else none

def prepend (piece : Piece) : Option (List Piece × List Char) → Option (List Piece × List Char)
  | some (pieces, rest) => some (piece :: pieces, rest)
  | none => none

/-- The pieces up to the closing quote, and the text after it. -/
def scanPieces : List Char → Option (List Piece × List Char)
  | [] => none
  | c :: rest =>
      if c = '"' then some ([], rest)
      else if c = '\\' then
        match rest with
        | [] => none
        | e :: rest =>
            if e = 'u' then
              match rest with
              | d₁ :: d₂ :: d₃ :: d₄ :: rest =>
                  match Numeral.natural? 16 [d₁, d₂, d₃, d₄] with
                  | some value => prepend (.unit value) (scanPieces rest)
                  | none => none
              | _ => none
            else
              match escaped? e with
              | some plain => prepend (.plain plain) (scanPieces rest)
              | none => none
      else if c.toNat < 0x20 then none
      else prepend (.plain c) (scanPieces rest)

def isHighSurrogate (value : Nat) : Bool := 0xD800 ≤ value && value < 0xDC00

def isLowSurrogate (value : Nat) : Bool := 0xDC00 ≤ value && value < 0xE000

/-- The characters of the pieces, when every surrogate stands in a pair. -/
def join? : List Piece → Option (List Char)
  | [] => some []
  | .plain c :: rest => (join? rest).map (c :: ·)
  | .unit high :: rest =>
      if isHighSurrogate high then
        match rest with
        | .unit low :: rest =>
            if isLowSurrogate low then
              (join? rest).map (Char.ofNat (0x10000 + (high - 0xD800) * 0x400 + (low - 0xDC00)) :: ·)
            else none
        | _ => none
      else if isLowSurrogate high then none
      else (join? rest).map (Char.ofNat high :: ·)

def scanText (chars : List Char) : Option (Token × List Char) :=
  (scanPieces chars).map fun read => (.text ((join? read.1).map String.ofList), read.2)

/-! ## Numbers -/

/-- One digit or more. -/
def scanDigits (chars : List Char) : Option (List Char × List Char) :=
  match chars.takeWhile Char.isDigit with
  | [] => none
  | digits => some (digits, chars.dropWhile Char.isDigit)

/-- The digits after a point; no point, no digits. -/
def scanFraction : List Char → Option (Option (List Char) × List Char)
  | '.' :: rest => (scanDigits rest).map fun read => (some read.1, read.2)
  | chars => some (none, chars)

def scanSign : List Char → Bool × List Char
  | '-' :: rest => (true, rest)
  | '+' :: rest => (false, rest)
  | chars => (false, chars)

def scanExponent : List Char → Option (Option Int × List Char)
  | [] => some (none, [])
  | c :: rest =>
      if c = 'e' ∨ c = 'E' then
        let sign := scanSign rest
        match scanDigits sign.2 with
        | some (digits, rest) =>
            let size := (Numeral.decimal? digits).getD 0
            some (some (if sign.1 then -(size : Int) else size), rest)
        | none => none
      else some (none, c :: rest)

def fitsInt (negative : Bool) (size : Nat) : Bool :=
  if negative then 0 < size && size ≤ Numeral.maxInt + 1 else size ≤ Numeral.maxWord

/-- Digits taken into a number as long as it fits sixty-four bits, and the count of those left. -/
def keepDigits : Nat → List Char → Nat × Nat
  | kept, [] => (kept, 0)
  | kept, c :: rest =>
      let next := kept * 10 + (c.toNat - '0'.toNat)
      if next ≤ Numeral.maxWord then keepDigits next rest else (kept, rest.length + 1)

/-- A whole number left over keeps its place by the power of ten; a fraction left over is dropped. -/
def numberOf (negative : Bool) (whole : List Char) (fraction : Option (List Char))
    (exponent : Option Int) : Json :=
  let (size, left) := keepDigits 0 whole
  if fraction.isNone && exponent.isNone && left == 0 && fitsInt negative size then
    .int (if negative then -(size : Int) else size)
  else
    let places := fraction.getD []
    let (coefficient, dropped) := keepDigits size places
    .real ⟨negative, coefficient, exponent.getD 0 + left - ((places.length : Int) - dropped)⟩

/-- No zero stands before another digit. -/
def isWhole : List Char → Bool
  | '0' :: _ :: _ => false
  | _ => true

def scanNumber (negative : Bool) (chars : List Char) : Option (Token × List Char) :=
  match scanDigits chars with
  | none => none
  | some (whole, rest) =>
      if isWhole whole then
        match scanFraction rest with
        | none => none
        | some (fraction, rest) =>
            match scanExponent rest with
            | none => none
            | some (exponent, rest) =>
                some (.literal (numberOf negative whole fraction exponent), rest)
      else none

/-! ## All tokens -/

/-- A fixed word, of which the first character is read. -/
def scanWord (word : List Char) (value : Json) (chars : List Char) : Option (Token × List Char) :=
  if word.isPrefixOf chars then some (.literal value, chars.drop word.length) else none

/-- The token that starts with `c`. -/
def scan (c : Char) (rest : List Char) : Option (Token × List Char) :=
  match c with
  | '{' => some (.openBrace, rest)
  | '}' => some (.closeBrace, rest)
  | '[' => some (.openBracket, rest)
  | ']' => some (.closeBracket, rest)
  | ':' => some (.colon, rest)
  | ',' => some (.comma, rest)
  | '"' => scanText rest
  | 'n' => scanWord ['u', 'l', 'l'] .null rest
  | 't' => scanWord ['r', 'u', 'e'] (.bool true) rest
  | 'f' => scanWord ['a', 'l', 's', 'e'] (.bool false) rest
  | '-' => scanNumber true rest
  | _ => if c.isDigit then scanNumber false (c :: rest) else none

theorem prepend_eq_some {piece : Piece} {read : Option (List Piece × List Char)}
    {pieces : List Piece} {rest : List Char} :
    prepend piece read = some (pieces, rest) ↔
      ∃ more, read = some (more, rest) ∧ pieces = piece :: more := by
  cases read with
  | none => simp [prepend]
  | some read => obtain ⟨more, left⟩ := read; simp [prepend]; grind

theorem scanPieces_length {chars rest : List Char} {pieces : List Piece}
    (read : scanPieces chars = some (pieces, rest)) : rest.length < chars.length := by
  fun_induction scanPieces chars generalizing pieces rest <;> grind [prepend_eq_some]

theorem scanDigits_length {chars digits rest : List Char}
    (read : scanDigits chars = some (digits, rest)) : rest.length < chars.length := by
  have whole := congrArg List.length (List.takeWhile_append_dropWhile (p := Char.isDigit) (l := chars))
  rw [List.length_append] at whole
  unfold scanDigits at read
  split at read
  · contradiction
  · rename_i found some_digit
    have positive := List.length_pos_iff.mpr some_digit
    simp only [Option.some.injEq, Prod.mk.injEq] at read
    rw [← read.2]
    omega

theorem scanFraction_length {chars rest : List Char} {digits : Option (List Char)}
    (read : scanFraction chars = some (digits, rest)) : rest.length ≤ chars.length := by
  unfold scanFraction at read
  split at read
  · obtain ⟨found, inner, equal⟩ := Option.map_eq_some_iff.mp read
    have := @scanDigits_length _ found.1 found.2 inner
    grind
  · grind

theorem scanSign_length (chars : List Char) : (scanSign chars).2.length ≤ chars.length := by
  unfold scanSign
  split <;> simp

theorem scanExponent_length {chars rest : List Char} {exponent : Option Int}
    (read : scanExponent chars = some (exponent, rest)) : rest.length ≤ chars.length := by
  unfold scanExponent at read
  split at read
  · grind
  · rename_i c tail
    have signed := scanSign_length tail
    split at read
    · simp only at read
      split at read
      · rename_i inner
        have := scanDigits_length inner
        grind
      · contradiction
    · grind

theorem scanNumber_length {negative : Bool} {chars rest : List Char} {token : Token}
    (read : scanNumber negative chars = some (token, rest)) : rest.length < chars.length := by
  unfold scanNumber at read
  split at read
  · contradiction
  · rename_i whole
    have := scanDigits_length whole
    split at read
    · split at read
      · contradiction
      · rename_i fraction
        have := scanFraction_length fraction
        split at read
        · contradiction
        · rename_i exponent
          have := scanExponent_length exponent
          grind
    · contradiction

theorem scanWord_length {word chars rest : List Char} {value : Json} {token : Token}
    (read : scanWord word value chars = some (token, rest)) : rest.length ≤ chars.length := by
  unfold scanWord at read
  split at read
  · simp only [Option.some.injEq, Prod.mk.injEq] at read
    simp [← read.2]
  · contradiction

theorem scanText_length {chars rest : List Char} {token : Token}
    (read : scanText chars = some (token, rest)) : rest.length ≤ chars.length := by
  obtain ⟨found, inner, equal⟩ := Option.map_eq_some_iff.mp read
  have := @scanPieces_length _ found.2 found.1 inner
  grind

theorem scan_length {c : Char} {chars rest : List Char} {token : Token}
    (read : scan c chars = some (token, rest)) : rest.length ≤ chars.length := by
  unfold scan at read
  split at read
  case h_12 =>
    split at read
    · have := scanNumber_length read
      simp only [List.length_cons] at this
      omega
    · contradiction
  case h_7 => exact scanText_length read
  case h_11 => exact Nat.le_of_lt (scanNumber_length read)
  all_goals first | exact scanWord_length read | grind

end Token

/-- All tokens of a text. -/
def tokens? (chars : List Char) : Option (List Token) :=
  match chars with
  | [] => some []
  | c :: rest =>
      if Token.isBlank c then tokens? rest
      else
        match read : Token.scan c rest with
        | some (token, left) =>
            have := Token.scan_length read
            (tokens? left).map (token :: ·)
        | none => none
termination_by chars.length
decreasing_by
  · simp
  · simp only [List.length_cons]
    omega

end PackedTables.Json
