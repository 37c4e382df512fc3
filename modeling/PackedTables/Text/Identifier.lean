/-!
# Identifiers

A letter or underscore, then letters, digits and underscores, all of them ASCII.
-/

namespace PackedTables

namespace Identifier

def isHead (c : Char) : Bool := c.isAlpha || c == '_'

def isTail (c : Char) : Bool := c.isAlphanum || c == '_'

def isIdentifierChars : List Char → Bool
  | [] => false
  | c :: rest => isHead c && rest.all isTail

end Identifier

def isIdentifier (text : String) : Bool := Identifier.isIdentifierChars text.toList

end PackedTables
