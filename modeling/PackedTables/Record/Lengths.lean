import PackedTables.Bytes
import PackedTables.Fault
import PackedTables.Settings.Basic
import PackedTables.Text.Numeral

/-!
# The lengths header

A word that tells how long each dynamic payload is.  Its low seven bytes hold the total.  Above
them lie five slots of five bytes, the first field in the lowest one; unused slots are zero.
-/

namespace PackedTables

namespace Lengths

def wordLength : Nat := 32

def totalWidth : Nat := 7

def slotWidth : Nat := 5

def total (lengths : List Nat) : Nat := Bytes.joinedLength lengths

/-- The total, when it fits sixty-four bits. -/
def total? (lengths : List Nat) : Option Nat :=
  if total lengths ≤ Numeral.maxWord then some (total lengths) else none

/-- Where the slot of a field stops; each slot lies below those of the fields before. -/
def slotStop (ordinal : Nat) : Nat := wordLength - totalWidth - slotWidth * ordinal

def slotStart (ordinal : Nat) : Nat := slotStop ordinal - slotWidth

def slotLength (word : Bytes) (ordinal : Nat) : Nat :=
  Bytes.number ((word.drop (slotStart ordinal)).take slotWidth)

def wordTotal (word : Bytes) : Nat := Bytes.number (word.drop (wordLength - totalWidth))

/-- Put the last `width` of the eight bytes of a number into a word, up to where they stop. -/
def putNumber (word : Bytes) (stop width value : Nat) : Bytes :=
  word.overwrite (stop - width) ((Bytes.bigEndian 8 value).drop (8 - width))

/-- The header without checks: the total, and then one slot after another. -/
def fill (lengths : List Nat) : Bytes :=
  lengths.zipIdx.foldl (fun word entry => putNumber word (slotStop entry.2) slotWidth entry.1)
    (putNumber (List.replicate wordLength 0) wordLength totalWidth (total lengths))

def toWord (lengths : List Nat) : Except LimitFlaw Bytes :=
  if Limits.maxDynamicFields < lengths.length then
    .error (.lengthCount lengths.length Limits.maxDynamicFields)
  else
    match lengths.find? fun length => Limits.maxDynamicLength < length with
    | some length => .error (.lengthRange length Limits.maxDynamicLength)
    | none => .ok (fill lengths)

/-- The first slot from `count` on that is not zero. -/
def usedSlot? (word : Bytes) (count : Nat) : Option Nat :=
  (List.range Limits.maxDynamicFields).find? fun ordinal =>
    count ≤ ordinal && slotLength word ordinal != 0

/-- The lengths of `count` fields. -/
def ofWord (word : Bytes) (count : Nat) : Except RecordFlaw (List Nat) :=
  if word.length ≠ wordLength then .error (.headerLength word.length wordLength)
  else if Limits.maxDynamicFields < count then
    .error (.headerCapacity count Limits.maxDynamicFields)
  else
    match usedSlot? word count with
    | some ordinal => .error (.unusedSlot (slotLength word ordinal) ordinal)
    | none =>
        let lengths := (List.range count).map (slotLength word)
        if total lengths = wordTotal word then .ok lengths
        else .error (.totalMismatch (wordTotal word) (total lengths))

end Lengths

end PackedTables
