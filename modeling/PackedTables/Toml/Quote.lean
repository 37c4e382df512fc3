import PackedTables.Text.Numeral

/-!
# Quoting texts for TOML

A text is written in the plainest of four forms that can hold it: between quotes with escapes or
apostrophes without, and between one or three of them.  Three marks also keep line ends.
-/

namespace PackedTables.Toml

inductive QuoteForm
  | basic
  | literal
  | basicLines
  | literalLines
  deriving DecidableEq

namespace QuoteForm

/-- The length of the longest run of a character, after a run of `current`. -/
def longestRun (mark : Char) (current : Nat) : List Char → Nat
  | [] => current
  | c :: rest =>
      if c = mark then longestRun mark (current + 1) rest else max current (longestRun mark 0 rest)

/-- Control characters other than tabs and line ends. -/
def isControl (c : Char) : Bool :=
  (c.toNat < 0x20 && c != '\t' && c != '\n') || c.toNat == 0x7F

def choose (text : List Char) : QuoteForm :=
  let quotes := longestRun '"' 0 text
  let apostrophes := longestRun '\'' 0 text
  let controlled := text.any isControl
  let slashed := text.contains '\\'
  let lined := text.contains '\n'
  if !controlled && !slashed && quotes == 0 && !lined then basic
  else if !controlled && apostrophes == 0 && !lined then literal
  else if !controlled && !slashed && quotes ≤ 2 then basicLines
  else if !controlled && apostrophes ≤ 2 then literalLines
  else if lined then basicLines
  else basic

def hexDigit (value : Nat) : Char := (Nat.digitChar (value % 16)).toUpper

/-- A character as it stands between quotes; a quote itself is not among these. -/
def escapeChar (keepLines : Bool) (c : Char) : List Char :=
  if c = '\\' then ['\\', '\\']
  else if c = '\t' then ['\\', 't']
  else if c = '\n' then if keepLines then ['\n'] else ['\\', 'n']
  else if c = '\r' then ['\\', 'r']
  else if c = Char.ofNat 8 then ['\\', 'b']
  else if c = Char.ofNat 12 then ['\\', 'f']
  else if isControl c then ['\\', 'u', '0', '0', hexDigit (c.toNat / 16), hexDigit c.toNat]
  else [c]

/-- The text between quotes; `most` quotes in a row may stand, `seen` of which stand already. -/
def escapeFrom (keepLines : Bool) (most : Nat) : Nat → List Char → List Char
  | _, [] => []
  | seen, c :: rest =>
      if c = '"' then
        if seen < most then c :: escapeFrom keepLines most (seen + 1) rest
        else '\\' :: c :: escapeFrom keepLines most 0 rest
      else escapeChar keepLines c ++ escapeFrom keepLines most 0 rest

/-- Three marks, then a line end that does not count when the text has lines. -/
def enclose (mark : Char) (text inner : List Char) : List Char :=
  let marks := List.replicate 3 mark
  marks ++ (if text.contains '\n' then ['\n'] else []) ++ inner ++ marks

def write (text : List Char) : QuoteForm → List Char
  | basic => '"' :: escapeFrom false 0 0 text ++ ['"']
  | literal => '\'' :: text ++ ['\'']
  | basicLines => enclose '"' text (escapeFrom true 2 0 text)
  | literalLines => enclose '\'' text text

end QuoteForm

def quote (text : String) : List Char := (QuoteForm.choose text.toList).write text.toList

/-- A list of texts, from two on with each on a line of its own. -/
def quoteList : List String → List Char
  | [] => ['[', ']']
  | [text] => '[' :: quote text ++ [']']
  | texts =>
      '[' :: '\n' :: texts.flatMap (fun text =>
        [' ', ' ', ' ', ' '] ++ quote text ++ [',', '\n']) ++ [']']

end PackedTables.Toml
