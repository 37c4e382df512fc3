import PackedTables.Number.Binary64

/-!
# Setting trees

What a file or the environment says before anybody asks for a value of a certain type.  An empty
leaf stands where a list was made longer.
-/

namespace PackedTables

inductive Tree
  | empty
  | bool (value : Bool)
  | int (value : Int)
  | float (value : Binary64)
  | text (value : String)
  | list (items : List Tree)
  | table (members : List (String × Tree))

namespace Tree

abbrev Members := List (String × Tree)

def member? (name : String) : Members → Option Tree
  | [] => none
  | member :: rest => if name = member.1 then some member.2 else member? name rest

/-- Put a tree under a name, instead of what was there. -/
def put (name : String) (tree : Tree) : Members → Members
  | [] => [(name, tree)]
  | member :: rest =>
      if member.1 = name then (name, tree) :: rest else member :: put name tree rest

/-- The members of a table; nothing else has any. -/
def members : Tree → Members
  | table members => members
  | _ => []

/-- The items of a list; nothing else has any. -/
def items : Tree → List Tree
  | list items => items
  | _ => []

theorem member?_put (name other : String) (tree : Tree) (members : Members) :
    member? other (put name tree members) =
      if other = name then some tree else member? other members := by
  induction members with
  | nil => simp [put, member?]
  | cons head rest ih =>
      unfold put
      split
      · rename_i here
        by_cases same : other = name <;> simp [member?, same, here]
      · rename_i apart
        by_cases here : other = head.1
        · simp [member?, here, apart]
        · simp [member?, here, ih]

end Tree

end PackedTables
