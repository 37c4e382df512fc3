import PackedTables.Fault
import PackedTables.Text.Utf8

/-!
# Table identifiers

A table is found under a word of thirty-two bytes: two letters that tell whether it is kept
offchain, fourteen bytes of namespace and sixteen bytes of name.  A namespace must fit, and a name
is cut; both are filled up with zero bytes.
-/

namespace PackedTables

structure TableId where
  word : Bytes
  deriving DecidableEq

namespace TableId

def markWidth : Nat := 2

def namespaceWidth : Nat := 14

def nameWidth : Nat := 16

/-- The letters `ot` or `tb`. -/
def mark (offchain : Bool) : Bytes := if offchain then [0x6F, 0x74] else [0x74, 0x62]

def wordOf (worldNamespace name : Bytes) (offchain : Bool) : Bytes :=
  mark offchain ++ Bytes.padRight namespaceWidth worldNamespace ++
    Bytes.padRight nameWidth (name.take nameWidth)

def make (worldNamespace name : String) (offchain : Bool) : Except Fault TableId :=
  if namespaceWidth < (Utf8.encode worldNamespace).length then
    .error (.invalidName worldNamespace (.namespaceTooLong namespaceWidth))
  else .ok ⟨wordOf (Utf8.encode worldNamespace) (Utf8.encode name) offchain⟩

def markPart (id : TableId) : Bytes := id.word.take markWidth

def namespacePart (id : TableId) : Bytes := (id.word.drop markWidth).take namespaceWidth

def namePart (id : TableId) : Bytes := id.word.drop (markWidth + namespaceWidth)

def isOffchain (id : TableId) : Bool := id.markPart == mark true

/-- The text of the bytes before the filling; a character that was cut is replaced. -/
def partText (part : Bytes) : String := Utf8.decodeLossy part.trimRight

def worldNamespace (id : TableId) : String := partText id.namespacePart

def name (id : TableId) : String := partText id.namePart

def text (id : TableId) : String := Hex.encodeMarked id.word

/-- Identifiers in ascending order of their bytes. -/
def sort (ids : List TableId) : List TableId :=
  ids.mergeSort fun first second => decide (first.word ≤ second.word)

theorem length_wordOf {worldNamespace : Bytes} (fits : worldNamespace.length ≤ namespaceWidth)
    (name : Bytes) (offchain : Bool) : (wordOf worldNamespace name offchain).length = 32 := by
  have marks : (mark offchain).length = 2 := by cases offchain <;> rfl
  simp only [namespaceWidth] at fits
  simp only [wordOf, Bytes.padRight, List.length_append, List.length_replicate, List.length_take,
    marks, namespaceWidth, nameWidth]
  omega

end TableId

end PackedTables
