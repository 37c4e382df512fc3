/-!
# Blanks

The characters that separate words in any script.
-/

namespace PackedTables

namespace Blank

/-- The code points of the blanks as ranges, both ends included. -/
def ranges : List (Nat × Nat) :=
  [(0x09, 0x0D), (0x20, 0x20), (0x85, 0x85), (0xA0, 0xA0), (0x1680, 0x1680), (0x2000, 0x200A),
   (0x2028, 0x2029), (0x202F, 0x202F), (0x205F, 0x205F), (0x3000, 0x3000)]

end Blank

def isBlank (c : Char) : Bool :=
  Blank.ranges.any fun range => range.1 ≤ c.toNat && c.toNat ≤ range.2

def skipBlanks (chars : List Char) : List Char := chars.dropWhile isBlank

end PackedTables
