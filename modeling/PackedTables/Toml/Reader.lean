import PackedTables.Toml.Document
import PackedTables.Toml.Scalar
import PackedTables.Toml.Token

/-!
# Reading TOML text

The tokens drive a push-down machine.  Its stack holds the entry of the line and the lists and
inline tables whose values are being read, and its output is the sections so far.
-/

namespace PackedTables.Toml

/-- A part of a dotted name. -/
inductive NamePart
  | name (text : String)
  | point
  deriving DecidableEq

/-- What waits for a value; entries and items stand last one first. -/
inductive Frame
  | entry (path : List String)
  | items (done : List Node)
  | pairs (done : List Entry) (path : List String)

inductive State
  | line
  /-- A header, an element of a list of tables when `element` holds. -/
  | header (element : Bool) (parts : List NamePart)
  /-- After the first closing bracket of two. -/
  | headerEnd (path : List String)
  | lineEnd
  | name (parts : List NamePart)
  | value (stack : List Frame)
  /-- An item, or the end of the list on top of the stack. -/
  | item (stack : List Frame)
  /-- A name in an inline table, or its end before the first entry. -/
  | pair (done : List Entry) (parts : List NamePart) (stack : List Frame)
  | finished (value : Node) (stack : List Frame)

/-- The sections, the last one and its last entry first, and what is being read. -/
structure Reading where
  sections : List Section
  state : State

namespace Reading

/-! ## Names -/

def isBare (c : Char) : Bool := c.isAlphanum || c == '_' || c == '-'

/-- The parts of a word; `bare` are the characters of a part so far, last one first. -/
def wordParts? : List Char → List Char → Option (List NamePart)
  | bare, [] => some (if bare.isEmpty then [] else [.name (String.ofList bare.reverse)])
  | bare, c :: rest =>
      if isBare c then wordParts? (c :: bare) rest
      else if c = '.' then
        (wordParts? [] rest).map fun parts =>
          (if bare.isEmpty then [] else [.name (String.ofList bare.reverse)]) ++ .point :: parts
      else none

def tokenParts? : Token → Option (List NamePart)
  | .word chars => wordParts? [] chars
  | .text false value => some [.name value]
  | _ => none

/-- Names with points between them. -/
def namesOf? : List NamePart → Option (List String)
  | [.name name] => some [name]
  | .name name :: .point :: rest => (namesOf? rest).map (name :: ·)
  | _ => none

/-- How many names a path may have, and how deep values may be nested. -/
def maxDepth : Nat := 79

def path? (parts : List NamePart) : Option (List String) :=
  (namesOf? parts).filter fun names => names.length ≤ maxDepth

/-! ## Values -/

/-- Start a list or an inline table; the stack also holds the entry of the line. -/
def enter (state : State) (stack : List Frame) : Option State :=
  if stack.length ≤ maxDepth then some state else none

/-- A moment, or else a truth value or a number. -/
def wordNode? (chars : List Char) : Option Node :=
  match Moment.ofChars? chars with
  | some text => some (.moment (String.ofList text))
  | none => (Scalar.ofChars? chars).map .leaf

def value? (stack : List Frame) : Token → Option State
  | .word chars => (wordNode? chars).map fun node => .finished node stack
  | .text _ value => some (.finished (.leaf (.text value)) stack)
  | .openBracket _ => enter (.item (.items [] :: stack)) stack
  | .openBrace => enter (.pair [] [] stack) stack
  | _ => none

def item? : List Frame → Token → Option State
  | stack, .newline => some (.item stack)
  | .items done :: stack, .closeBracket _ => some (.finished (.list done.reverse) stack)
  | stack, token => value? stack token

def pair? (done : List Entry) (parts : List NamePart) (stack : List Frame) : Token → Option State
  | .equals => (path? parts).map fun path => .value (.pairs done path :: stack)
  | .closeBrace => if done.isEmpty && parts.isEmpty then some (.finished (.closed []) stack) else none
  | token => (tokenParts? token).map fun more => .pair done (parts ++ more) stack

/-- A token after a value inside a list or an inline table. -/
def finished? (node : Node) : List Frame → Token → Option State
  | .items done :: stack, .newline => some (.finished node (.items done :: stack))
  | .items done :: stack, .comma => some (.item (.items (node :: done) :: stack))
  | .items done :: stack, .closeBracket _ => some (.finished (.list (node :: done).reverse) stack)
  | .pairs done path :: stack, .comma => some (.pair (⟨path, node⟩ :: done) [] stack)
  | .pairs done path :: stack, .closeBrace =>
      (closedNode? (⟨path, node⟩ :: done).reverse).map fun table => .finished table stack
  | _, _ => none

/-! ## Lines -/

def startSection (header : Header) (sections : List Section) : List Section := ⟨header, []⟩ :: sections

def record (entry : Entry) : List Section → List Section
  | [] => [⟨.top, [entry]⟩]
  | part :: rest => { part with entries := entry :: part.entries } :: rest

def header? (sections : List Section) (element : Bool) (parts : List NamePart) :
    Token → Option Reading
  | .openBracket true => if !element && parts.isEmpty then some ⟨sections, .header true []⟩ else none
  | .closeBracket _ =>
      (path? parts).map fun path =>
        if element then ⟨sections, .headerEnd path⟩
        else ⟨startSection (.table path) sections, .lineEnd⟩
  | token => (tokenParts? token).map fun more => ⟨sections, .header element (parts ++ more)⟩

def step (reading : Reading) (token : Token) : Option Reading :=
  let go (state : Option State) : Option Reading := state.map fun state => { reading with state }
  match reading.state, token with
  | .line, .newline => some reading
  | .line, .openBracket _ => go (some (.header false []))
  | .line, token => go ((tokenParts? token).map .name)
  | .header element parts, token => header? reading.sections element parts token
  | .headerEnd path, .closeBracket true => some ⟨startSection (.element path) reading.sections, .lineEnd⟩
  | .headerEnd _, _ => none
  | .lineEnd, .newline => go (some .line)
  | .lineEnd, _ => none
  | .name parts, .equals => go ((path? parts).map fun path => .value [.entry path])
  | .name parts, token => go ((tokenParts? token).map fun more => .name (parts ++ more))
  | .value stack, token => go (value? stack token)
  | .item stack, token => go (item? stack token)
  | .pair done parts stack, token => go (pair? done parts stack token)
  | .finished node [.entry path], .newline =>
      some ⟨record ⟨path, node⟩ reading.sections, .line⟩
  | .finished node stack, token => go (finished? node stack token)

def run : Reading → List Token → Option Reading
  | reading, [] => some reading
  | reading, token :: rest =>
      match step reading token with
      | some next => run next rest
      | none => none

theorem run_append (reading : Reading) (first second : List Token) :
    run reading (first ++ second) = (run reading first).bind fun next => run next second := by
  induction first generalizing reading with
  | nil => rfl
  | cons token rest ih =>
      simp only [List.cons_append, run]
      cases step reading token with
      | none => rfl
      | some next => exact ih next

/-- Sections in the order in which they were read. -/
def ordered (sections : List Section) : List Section :=
  (sections.map fun part => { part with entries := part.entries.reverse }).reverse

end Reading

def sections? (tokens : List Token) : Option (List Section) :=
  match Reading.run ⟨[], .line⟩ tokens with
  | some ⟨sections, .line⟩ => some (Reading.ordered sections)
  | _ => none

/-- A mark of the byte order may stand in front of a text. -/
def byteOrderMark : Char := Char.ofNat 0xFEFF

def withoutMark : List Char → List Char
  | c :: rest => if c = byteOrderMark then rest else c :: rest
  | [] => []

/-- The members of the document that a text is. -/
def parse? (text : String) : Option Tree.Members := do
  let tokens ← tokens? (withoutMark text.toList)
  documentMembers? (← sections? tokens)

end PackedTables.Toml
