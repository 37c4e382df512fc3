/-!
# Lower case

The letters of the Latin alphabet in lower case.  One sign outside the alphabet has its lower case
among them, that of the unit kelvin; every other character stays as it is.
-/

namespace PackedTables

def kelvinSign : Char := Char.ofNat 0x212A

def lowerChar (c : Char) : Char := if c = kelvinSign then 'k' else c.toLower

def lowerCase (text : String) : String := String.ofList (text.toList.map lowerChar)

end PackedTables
