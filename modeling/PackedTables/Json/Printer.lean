import PackedTables.Json.Basic

/-!
# Writing JSON

The compact form has no blanks.  The spread form puts each item and member on a line of its own,
indented by two blanks a level, and writes an empty array or object on one line.  Only quotes,
backslashes and control characters are escaped.
-/

namespace PackedTables.Json

def hexDigit (value : Nat) : Char := Nat.digitChar (value % 16)

def escapeChar (c : Char) : List Char :=
  if c = '"' then ['\\', '"']
  else if c = '\\' then ['\\', '\\']
  else if c = Char.ofNat 8 then ['\\', 'b']
  else if c = Char.ofNat 12 then ['\\', 'f']
  else if c = '\n' then ['\\', 'n']
  else if c = '\r' then ['\\', 'r']
  else if c = '\t' then ['\\', 't']
  else if c.toNat < 0x20 then
    ['\\', 'u', '0', '0', hexDigit (c.toNat / 16), hexDigit c.toNat]
  else [c]

def quote (text : String) : List Char := '"' :: text.toList.flatMap escapeChar ++ ['"']

def quoteName (name : MemberName) : List Char := quote (name.getD "")

/-- The digits of a number, then its power of ten. -/
def writeReal (value : Decimal) : List Char :=
  (if value.negative then ['-'] else []) ++ Numeral.digits value.coefficient ++
    'e' :: (toString value.exponent).toList

def writeScalar : Json → List Char
  | .null => ['n', 'u', 'l', 'l']
  | .bool true => ['t', 'r', 'u', 'e']
  | .bool false => ['f', 'a', 'l', 's', 'e']
  | .int value => (toString value).toList
  | .real value => writeReal value
  | .text value => quote value
  | _ => quote ""

/-! ## Compact form -/

mutual

def compactChars : Json → List Char
  | .array items => '[' :: compactItems items
  | .object members => '\x7b' :: compactMembers members
  | scalar => writeScalar scalar

def compactItems : List Json → List Char
  | [] => [']']
  | item :: rest => compactChars item ++ compactMoreItems rest

def compactMoreItems : List Json → List Char
  | [] => [']']
  | item :: rest => ',' :: compactChars item ++ compactMoreItems rest

def compactMembers : List (MemberName × Json) → List Char
  | [] => ['\x7d']
  | (name, value) :: rest => quoteName name ++ ':' :: compactChars value ++ compactMoreMembers rest

def compactMoreMembers : List (MemberName × Json) → List Char
  | [] => ['\x7d']
  | (name, value) :: rest =>
      ',' :: quoteName name ++ ':' :: compactChars value ++ compactMoreMembers rest

end

/-! ## Spread form -/

def newline (level : Nat) : List Char := '\n' :: List.replicate (2 * level) ' '

mutual

def spreadChars (level : Nat) : Json → List Char
  | .array [] => ['[', ']']
  | .array (item :: rest) =>
      '[' :: newline (level + 1) ++ spreadChars (level + 1) item ++ spreadItems level rest
  | .object [] => ['\x7b', '\x7d']
  | .object ((name, value) :: rest) =>
      '\x7b' :: newline (level + 1) ++ quoteName name ++ ':' :: ' ' :: spreadChars (level + 1) value ++
        spreadMembers level rest
  | scalar => writeScalar scalar

def spreadItems (level : Nat) : List Json → List Char
  | [] => newline level ++ [']']
  | item :: rest =>
      ',' :: newline (level + 1) ++ spreadChars (level + 1) item ++ spreadItems level rest

def spreadMembers (level : Nat) : List (MemberName × Json) → List Char
  | [] => newline level ++ ['\x7d']
  | (name, value) :: rest =>
      ',' :: newline (level + 1) ++ quoteName name ++ ':' :: ' ' :: spreadChars (level + 1) value ++
        spreadMembers level rest

end

def compact (value : Json) : String := String.ofList (compactChars value)

def spread (value : Json) : String := String.ofList (spreadChars 0 value)

end PackedTables.Json
