import PackedTables.Fault

/-!
# Settings

How names and layouts are limited, how cells are read and written, and the namespace of a world.
The limits of the stored form bound what settings may ask for: a layout word holds twenty-eight
entries and two bytes of length, a lengths header five slots of five bytes.
-/

namespace PackedTables

namespace Limits

def maxFields : Nat := 28

def maxDynamicFields : Nat := 5

def maxStaticLength : Nat := 65535

/-- The greatest number of five bytes. -/
def maxDynamicLength : Nat := 0xFFFFFFFFFF

end Limits

structure SchemaRules where
  reservedNames : List String := []
  identifierNames : Bool := true
  maxKeyFields : Nat := Limits.maxFields
  maxValueFields : Nat := Limits.maxFields
  maxDynamicFields : Nat := Limits.maxDynamicFields
  maxStaticLength : Nat := Limits.maxStaticLength
  deriving DecidableEq

structure CodecRules where
  maxDynamicLength : Nat := Limits.maxDynamicLength
  strictBool : Bool := true
  deriving DecidableEq

structure Settings where
  worldNamespace : String := ""
  schema : SchemaRules := {}
  codec : CodecRules := {}
  deriving DecidableEq

namespace Settings

def standard : Settings := {}

/-- The first limit that the stored form cannot honour. -/
def flaw? (settings : Settings) : Option SettingsFlaw :=
  if settings.schema.maxValueFields = 0 ∨ Limits.maxFields < settings.schema.maxValueFields then
    some (.valueFields Limits.maxFields)
  else if Limits.maxFields < settings.schema.maxKeyFields then
    some (.keyFields Limits.maxFields)
  else if Limits.maxDynamicFields < settings.schema.maxDynamicFields then
    some (.dynamicFields Limits.maxDynamicFields)
  else if settings.schema.maxStaticLength = 0 ∨
      Limits.maxStaticLength < settings.schema.maxStaticLength then
    some (.staticLength Limits.maxStaticLength)
  else if settings.codec.maxDynamicLength = 0 ∨
      Limits.maxDynamicLength < settings.codec.maxDynamicLength then
    some (.dynamicLength Limits.maxDynamicLength)
  else none

def check (settings : Settings) : Except Fault Settings :=
  match settings.flaw? with
  | some flaw => .error (.invalidSettings flaw)
  | none => .ok settings

theorem check_eq_ok_iff {settings next : Settings} :
    settings.check = .ok next ↔ settings.flaw? = none ∧ settings = next := by
  unfold check
  cases settings.flaw? <;> simp

theorem maxDynamicLength_le {settings : Settings} (flawless : settings.flaw? = none) :
    settings.codec.maxDynamicLength ≤ Limits.maxDynamicLength := by
  unfold flaw? at flawless
  split at flawless
  · cases flawless
  · split at flawless
    · cases flawless
    · split at flawless
      · cases flawless
      · split at flawless
        · cases flawless
        · split at flawless
          · cases flawless
          · omega

end Settings

end PackedTables
