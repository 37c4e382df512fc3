import PackedTables.Bytes
import PackedTables.Layout.Basic

/-!
# Layout words

A layout in thirty-two bytes: two bytes of length, a count of fixed and a count of dynamic fields,
then one byte a field.  Each part is kept to the bytes it has.
-/

namespace PackedTables

namespace Layout

/-- The entries that fit in one word. -/
def wordEntries : Nat := 28

def packWord (length fixed dynamic : Nat) (entries : List UInt8) : Bytes :=
  Bytes.bigEndian 2 length ++ [UInt8.ofNat fixed, UInt8.ofNat dynamic] ++
    Bytes.padRight wordEntries (entries.take wordEntries)

/-- The widths of the fixed fields. -/
def fieldLayout (layout : Layout) : Bytes :=
  packWord layout.staticLength layout.fixedSlots.length layout.dynamicSlots.length
    (layout.fixedSlots.map fun slot => UInt8.ofNat slot.width)

/-- The type numbers of the values. -/
def valueSchema (layout : Layout) : Bytes :=
  packWord layout.staticLength layout.fixedSlots.length layout.dynamicSlots.length
    (layout.valueFields.map fun field => field.type.typeId)

/-- The type numbers of the key fields. -/
def keySchema (layout : Layout) : Bytes :=
  packWord layout.keyLength layout.keySlots.length 0
    (layout.keySlots.map fun slot => slot.field.type.typeId)

theorem length_packWord (length fixed dynamic : Nat) (entries : List UInt8) :
    (packWord length fixed dynamic entries).length = 32 := by
  simp only [packWord, Bytes.padRight, wordEntries, List.length_append, Bytes.length_bigEndian,
    List.length_cons, List.length_nil, List.length_replicate, List.length_take]
  omega

end Layout

end PackedTables
