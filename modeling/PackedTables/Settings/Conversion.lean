import PackedTables.Settings.Basic
import PackedTables.Settings.Tree
import PackedTables.Text.Lower
import PackedTables.Text.Numeral

/-!
# Settings out of trees

A leaf is taken as the type that is asked for, with some liberty between words, truth values and
numbers.  A structure is a table, or a list of its parts in their order; what is missing is
standard, and what is not known is ignored.
-/

namespace PackedTables

namespace Tree

def isYes (word : String) : Bool := ["true", "on", "yes"].contains word

def isNo (word : String) : Bool := ["false", "off", "no"].contains word

def textBool? (text : String) : Option Bool :=
  let word := lowerCase text
  if word = "1" ∨ isYes word then some true
  else if word = "0" ∨ isNo word then some false
  else none

def bool? : Tree → Option Bool
  | .bool value => some value
  | .int value => some (value != 0)
  | .float value => some !value.isZero
  | .text value => textBool? value
  | _ => none

def textNatural? (text : String) : Option Nat :=
  let word := lowerCase text
  if isYes word then some 1
  else if isNo word then some 0
  else Numeral.unsigned? Numeral.maxWord text.toList

/-- A number from zero up to the greatest of sixty-four bits. -/
def natural? : Tree → Option Nat
  | .bool value => some value.toNat
  | .int value => if 0 ≤ value then some value.toNat else none
  | .float value => some (value.clamp Numeral.maxWord)
  | .text value => textNatural? value
  | _ => none

def text? : Tree → Option String
  | .bool value => some (if value then "true" else "false")
  | .int value => some (toString value)
  | .float value => some value.text
  | .text value => some value
  | _ => none

def texts? : Tree → Option (List String)
  | .list items => items.mapM text?
  | _ => none

/-- What stands for each part of a structure. -/
def parts? (names : List String) : Tree → Option (List (Option Tree))
  | .table members => some (names.map (member? · members))
  | .list items => some ((List.range names.length).map (items[·]?))
  | _ => none

/-- A part that may be missing. -/
def part {α : Type} (read : Tree → Option α) (standard : α) : Option Tree → Option α
  | some tree => read tree
  | none => some standard

end Tree

def SchemaRules.ofTree? (tree : Tree) : Option SchemaRules := do
  let standard : SchemaRules := {}
  match ← tree.parts? ["reserved_names", "identifier_names", "max_key_fields", "max_value_fields",
      "max_dynamic_fields", "max_static_length"] with
  | [reserved, identifiers, keyFields, valueFields, dynamicFields, staticLength] =>
      return ⟨← Tree.part Tree.texts? standard.reservedNames reserved,
        ← Tree.part Tree.bool? standard.identifierNames identifiers,
        ← Tree.part Tree.natural? standard.maxKeyFields keyFields,
        ← Tree.part Tree.natural? standard.maxValueFields valueFields,
        ← Tree.part Tree.natural? standard.maxDynamicFields dynamicFields,
        ← Tree.part Tree.natural? standard.maxStaticLength staticLength⟩
  | _ => none

def CodecRules.ofTree? (tree : Tree) : Option CodecRules := do
  let standard : CodecRules := {}
  match ← tree.parts? ["max_dynamic_length", "strict_bool"] with
  | [dynamicLength, strict] =>
      return ⟨← Tree.part Tree.natural? standard.maxDynamicLength dynamicLength,
        ← Tree.part Tree.bool? standard.strictBool strict⟩
  | _ => none

namespace Settings

def worldOfTree? (tree : Tree) : Option String := do
  match ← tree.parts? ["namespace"] with
  | [name] => Tree.part Tree.text? standard.worldNamespace name
  | _ => none

def ofTree? (tree : Tree) : Option Settings := do
  match ← tree.parts? ["world", "validation", "codec"] with
  | [world, schema, codec] =>
      return ⟨← Tree.part worldOfTree? standard.worldNamespace world,
        ← Tree.part SchemaRules.ofTree? standard.schema schema,
        ← Tree.part CodecRules.ofTree? standard.codec codec⟩
  | _ => none

end Settings

end PackedTables
