import PackedTables.Settings.Tree
import PackedTables.Text.Lower
import PackedTables.Text.Numeral

/-!
# Paths into setting trees

A path leads from member to member and to items of lists, as in `codec.strict_bool` or
`names[2]`.  Text that is no path names one member.  What a path leads through is made where it is
missing, and replaced where it is of the wrong sort.  Names are taken in lower case, so members
whose names differ in case only are laid over one another.
-/

namespace PackedTables.Tree

inductive Step
  | member (name : String)
  /-- An item counted from the start, or from the end by a negative number. -/
  | item (index : Int)
  deriving DecidableEq

/-! ## Reading paths -/

def isNameChar (c : Char) : Bool := c.isAlphanum || c == ' ' || c == '_' || c == '-'

/-- A name of one character or more, and the rest. -/
def nameFrom? (chars : List Char) : Option (Step × List Char) :=
  match chars.takeWhile isNameChar with
  | [] => none
  | name => some (.member (String.ofList name), chars.dropWhile isNameChar)

def skipGaps (chars : List Char) : List Char := chars.dropWhile fun c => c == ' ' || c == '\t'

def splitMinus : List Char → Bool × List Char
  | '-' :: rest => (true, rest)
  | chars => (false, chars)

/-- A whole number between blanks and the closing bracket. -/
def itemFrom? (chars : List Char) : Option (Step × List Char) := do
  let (negative, rest) := splitMinus (skipGaps chars)
  let size ← Numeral.decimal? (rest.takeWhile Char.isDigit)
  let ']' :: rest := skipGaps (rest.dropWhile Char.isDigit) | none
  if size ≤ (if negative then Numeral.maxInt + 1 else Numeral.maxInt) then
    return (.item (if negative then -(size : Int) else size), rest)
  else none

def stepFrom? : List Char → Option (Step × List Char)
  | '.' :: rest => nameFrom? rest
  | '[' :: rest => itemFrom? rest
  | _ => none

/-- Steps up to the end of the text, `most` at most. -/
def stepsFrom? : Nat → List Char → Option (List Step)
  | _, [] => some []
  | 0, _ :: _ => none
  | most + 1, chars => do
      let (step, rest) ← stepFrom? chars
      return step :: (← stepsFrom? most rest)

def path? (text : String) : Option (List Step) := do
  let (first, rest) ← nameFrom? text.toList
  return first :: (← stepsFrom? rest.length rest)

/-- The steps of a path; text that is none names one member. -/
def pathOf (text : String) : List Step := (path? text).getD [.member text]

/-! ## Laying trees over one another -/

mutual

/-- Lay a tree under a name: tables member by member, all else instead of what was there. -/
def layUnder (root : Tree) (name : String) : Tree → Tree
  | .table incoming =>
      let target := (member? (lowerCase name) root.members).getD (.table [])
      .table (put (lowerCase name) (layMembers target incoming) root.members)
  | tree => .table (put (lowerCase name) tree root.members)

def layMembers (target : Tree) : List (String × Tree) → Tree
  | [] => target
  | (name, tree) :: rest => layMembers (layUnder target name tree) rest

end

/-- A list never has this many items. -/
def itemLimit : Nat := 0x100000000

/--
Empty leaves behind until an index is inside, and the place that it has.  No list reaches before its
start or up to the limit.
-/
def reach? (items : List Tree) (index : Int) : Option (List Tree × Nat) :=
  let place := if index < 0 then (items.length : Int) + index else index
  if 0 ≤ place ∧ place < itemLimit then
    some (items ++ List.replicate (place.toNat + 1 - items.length) .empty, place.toNat)
  else none

/-- Lay a tree at the end of a path in lower case; none when an index is out of reach. -/
def layAt? (tree : Tree) : List Step → Tree → Option Tree
  | [], _ => some tree
  | [.member name], root => some (layUnder root name tree)
  | [.item index], root =>
      (reach? root.items index).map fun reached => .list (reached.1.set reached.2 tree)
  | .member name :: path, root =>
      let target := (member? name root.members).getD .empty
      (layAt? tree path target).map fun laid => .table (put name laid root.members)
  | .item index :: path, root => do
      let (items, place) ← reach? root.items index
      let laid ← layAt? tree path (items[place]?.getD .empty)
      return .list (items.set place laid)

/-- Lay the members of a source, whose names in lower case are paths, over a tree. -/
def overlay? (root : Tree) (members : Members) : Option Tree :=
  members.foldlM (fun root member => layAt? member.2 (pathOf (lowerCase member.1)) root) root

end PackedTables.Tree
