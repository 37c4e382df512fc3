import PackedTables.Schema.Basic

/-!
# Storage layouts

Where each field of a table is stored.  Key fields lie one after another in the key.  Of the
values, those of fixed width lie one after another in the fixed block, and the others follow it in
order.  Value slots number the fixed fields first.
-/

namespace PackedTables

structure KeySlot where
  field : Field
  offset : Nat
  width : Nat
  deriving DecidableEq

structure FixedSlot where
  field : Field
  slot : Nat
  offset : Nat
  width : Nat
  deriving DecidableEq

structure DynamicSlot where
  field : Field
  slot : Nat
  ordinal : Nat
  deriving DecidableEq

structure Layout where
  table : String
  keySlots : List KeySlot
  fixedSlots : List FixedSlot
  dynamicSlots : List DynamicSlot
  keyLength : Nat
  staticLength : Nat
  deriving DecidableEq

inductive Position
  | key (slot : KeySlot)
  | fixed (slot : FixedSlot)
  | dynamic (slot : DynamicSlot)
  deriving DecidableEq

namespace Layout

def hasDynamic (layout : Layout) : Bool := !layout.dynamicSlots.isEmpty

def isSingleton (layout : Layout) : Bool := layout.keySlots.isEmpty

def fieldCount (layout : Layout) : Nat :=
  layout.keySlots.length + layout.fixedSlots.length + layout.dynamicSlots.length

/-- The fields of the value slots, in slot order. -/
def valueFields (layout : Layout) : List Field :=
  layout.fixedSlots.map (·.field) ++ layout.dynamicSlots.map (·.field)

def position? (layout : Layout) (name : String) : Option Position :=
  match layout.keySlots.find? fun slot => slot.field.name == name with
  | some slot => some (.key slot)
  | none =>
      match layout.fixedSlots.find? fun slot => slot.field.name == name with
      | some slot => some (.fixed slot)
      | none =>
          (layout.dynamicSlots.find? fun slot => slot.field.name == name).map .dynamic

end Layout

end PackedTables
