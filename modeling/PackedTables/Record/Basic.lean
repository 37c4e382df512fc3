import PackedTables.Bytes

/-!
# Records

A stored row: the key under which it lies, and the value that lies there.
-/

namespace PackedTables

structure Record where
  key : Bytes
  value : Bytes
  deriving DecidableEq

end PackedTables
