/-!
# Suggestions

Names that were probably meant.  A pattern matches a text when its characters occur in order,
letters of either case alike.  The score of the best such occurrence rewards runs and word starts.
It is found row by row, a row for each character of the pattern; two rows are kept, and what an
earlier comparison left on the board counts in the next one.
-/

namespace PackedTables

namespace Suggestion

/-! ## Weights -/

def exactScore : Int := 16

def foldedScore : Int := 14

def gapStart : Int := 4

def gapStep : Int := 1

def runBonus : Int := 4

def unreachable : Int := -32768

inductive Class
  | start
  | hard
  | soft
  | number
  | upper
  | lower
  deriving DecidableEq

def isHard (c : Char) : Bool := [' ', '/', '\\', '|', '(', ')', '[', ']', '\x7b', '\x7d'].contains c

def isSoft (c : Char) : Bool :=
  let code := c.toNat
  (0x21 ≤ code && code ≤ 0x27) || (0x2A ≤ code && code ≤ 0x2E) || (0x3A ≤ code && code ≤ 0x40) ||
    (0x5E ≤ code && code ≤ 0x60) || c == '~'

def classOf (c : Char) : Class :=
  if c.toNat = 0 then .start
  else if isHard c then .hard
  else if isSoft c then .soft
  else if c.isDigit then .number
  else if c.isUpper then .upper
  else .lower

/-- What a match earns for the place where it stands. -/
def bonus (before here : Class) : Int :=
  match before, here with
  | .start, _ => 8
  | .hard, _ => 8
  | .soft, _ => 7
  | .lower, .upper => 6
  | .number, .upper => 6
  | _, _ => 0

def bonusesAfter : Class → List Char → List Int
  | _, [] => []
  | before, c :: rest => bonus before (classOf c) :: bonusesAfter (classOf c) rest

/-- The bonus of each character; the first one counts twice. -/
def bonuses (text : List Char) : List Int :=
  match bonusesAfter .start text with
  | [] => []
  | first :: rest => 2 * first :: rest

/-! ## Matching -/

def sameLetter (first second : Char) : Bool := first.toLower == second.toLower

/-- Where each character of the pattern occurs first after the one before it. -/
def firstMatches? : Nat → List Char → List Char → Option (List Nat)
  | _, _, [] => some []
  | _, [], _ :: _ => none
  | place, c :: rest, wanted :: pattern =>
      if sameLetter c wanted then (firstMatches? (place + 1) rest pattern).map (place :: ·)
      else firstMatches? (place + 1) rest (wanted :: pattern)

/-- The best score that ends here, the best that skips this place, and the bonus of the run. -/
structure Score where
  ending : Int
  skipping : Int
  run : Int

def Score.fresh : Score := ⟨unreachable, unreachable, 0⟩

def Score.border : Score := ⟨unreachable, -1, 0⟩

/-- Two rows of scores, one after the other. -/
abbrev Board := Array Score

namespace Board

def scoreAt (board : Board) (columns row column : Nat) : Score :=
  board.getD (row * columns + column) .fresh

def put (board : Board) (columns row column : Nat) (score : Score) : Board :=
  board.setIfInBounds (row * columns + column) score

/-- Room for two rows; what is cut is lost, and what is added is fresh. -/
def resize (board : Board) (size : Nat) : Board :=
  board.extract 0 size ++ Array.replicate (size - board.size) Score.fresh

def prepare (board : Board) (columns first : Nat) : Board :=
  let board := (board.resize (2 * columns)).put columns 1 first .fresh
  (List.range columns).foldl (fun board column => board.put columns 0 column .border) board

/-- Score one place for one character of the pattern. -/
def visit (columns row : Nat) (wanted : Char) (board : Board) (place : (Char × Int) × Nat) :
    Board :=
  let ((c, bonus), column) := place
  let last := board.scoreAt columns row column
  let before := board.scoreAt columns (1 - row) column
  let current := board.scoreAt columns row (column + 1)
  let skipping := max (last.ending - gapStart) (last.skipping - gapStep)
  if sameLetter c wanted then
    let run := max last.run (max bonus runBonus)
    let ending := max (before.ending + run) (before.skipping + bonus) +
      (if c = wanted then exactScore else foldedScore)
    let board := board.put columns row column { last with run }
    board.put columns row (column + 1) { current with ending, skipping }
  else board.put columns row (column + 1) ⟨unreachable, skipping, 0⟩

/-- Score all places from the first match of each character of the pattern on. -/
def fill (columns : Nat) (places : List ((Char × Int) × Nat)) :
    Nat → List (Char × Nat) → Board → Board
  | _, [], board => board
  | row, (wanted, first) :: pattern, board =>
      fill columns places (1 - row) pattern
        ((places.drop first).foldl (visit columns row wanted) board)

/-- The best score that ends in a row at a column or after it. -/
def best (board : Board) (columns row first : Nat) : Int :=
  ((List.range columns).drop first).foldl
    (fun best column => max best (board.scoreAt columns row column).ending) unreachable

end Board

/-- The score of a pattern in a text, and the board after the comparison. -/
def score (board : Board) (text pattern : List Char) : Option Int × Board :=
  match pattern, firstMatches? 0 text pattern with
  | [], _ => (some 0, board)
  | _, none => (none, board)
  | _, some firsts =>
      let columns := text.length + 1
      let places := (text.zip (bonuses text)).zipIdx
      let board := board.prepare columns (firsts.headD 0)
      let board := board.fill columns places 1 (pattern.zip firsts)
      (some (board.best columns (pattern.length % 2) (firsts.getLastD 0)), board)

/-- The score of a query in a name, or else of the name in the query. -/
def scoreEither (board : Board) (name query : List Char) : Option Int × Board :=
  match score board name query with
  | (some value, board) => (some value, board)
  | (none, board) => score board query name

/-! ## Choosing -/

/-- What has been found so far, and the board on which it was found. -/
structure Search where
  best : Option (Int × String)
  board : Board

def Search.consider (query : List Char) (search : Search) (name : String) : Search :=
  match scoreEither search.board name.toList query, search.best with
  | (none, board), best => ⟨best, board⟩
  | (some value, board), none => ⟨some (value, name), board⟩
  | (some value, board), some (greatest, other) =>
      ⟨some (if greatest ≤ value then (value, name) else (greatest, other)), board⟩

/-- The name with the highest score, the last one of several; none when no name matches. -/
def closest? (names : List String) (query : String) : Option String :=
  (names.foldl (Search.consider query.toList) ⟨none, #[]⟩).best.map (·.2)

end Suggestion

end PackedTables
