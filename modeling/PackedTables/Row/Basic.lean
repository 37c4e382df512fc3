import PackedTables.Row.Cell

/-!
# Rows

Cells by field name.  Entries stand in ascending order of their names, by code points, so rows with
the same cells under the same names are equal (`ext_get?`).
-/

namespace PackedTables

namespace Row

def Ascending (entries : List (String × Cell)) : Prop :=
  entries.Pairwise fun first second => first.1 < second.1

/-- Put a cell in its place, instead of a cell of the same name. -/
def place (name : String) (cell : Cell) : List (String × Cell) → List (String × Cell)
  | [] => [(name, cell)]
  | entry :: rest =>
      if name < entry.1 then (name, cell) :: entry :: rest
      else if name = entry.1 then (name, cell) :: rest
      else entry :: place name cell rest

def lookup (name : String) : List (String × Cell) → Option Cell
  | [] => none
  | entry :: rest => if name = entry.1 then some entry.2 else lookup name rest

theorem lt_of_not_lt_of_ne {first second : String} (notBelow : ¬first < second)
    (different : first ≠ second) : second < first := by
  refine Classical.byContradiction fun notAbove => different ?_
  exact String.le_antisymm (String.not_lt.mp notAbove) (String.not_lt.mp notBelow)

theorem mem_place {name : String} {cell : Cell} {entries : List (String × Cell)}
    {entry : String × Cell} (member : entry ∈ place name cell entries) :
    entry = (name, cell) ∨ entry ∈ entries := by
  induction entries with
  | nil => simpa [place] using member
  | cons head rest ih =>
      unfold place at member
      split at member
      · simpa using member
      · split at member
        · rcases List.mem_cons.mp member with here | inRest
          · exact Or.inl here
          · exact Or.inr (List.mem_cons_of_mem _ inRest)
        · rcases List.mem_cons.mp member with here | inRest
          · exact Or.inr (here ▸ List.mem_cons_self)
          · rcases ih inRest with new | old
            · exact Or.inl new
            · exact Or.inr (List.mem_cons_of_mem _ old)

theorem ascending_place (name : String) (cell : Cell) {entries : List (String × Cell)}
    (ascending : Ascending entries) : Ascending (place name cell entries) := by
  induction entries with
  | nil => simp [place, Ascending]
  | cons head rest ih =>
      obtain ⟨above, ordered⟩ := List.pairwise_cons.mp ascending
      unfold place
      split
      · rename_i below
        refine List.pairwise_cons.mpr ⟨?_, ascending⟩
        intro entry member
        rcases List.mem_cons.mp member with here | inRest
        · exact here ▸ below
        · exact String.lt_trans below (above entry inRest)
      · split
        · rename_i equal
          exact List.pairwise_cons.mpr ⟨fun entry member => equal ▸ above entry member, ordered⟩
        · rename_i notBelow different
          refine List.pairwise_cons.mpr ⟨?_, ih ordered⟩
          intro entry member
          rcases mem_place member with new | old
          · exact new ▸ lt_of_not_lt_of_ne notBelow different
          · exact above entry old

end Row

structure Row where
  entries : List (String × Cell)
  ascending : Row.Ascending entries

namespace Row

def empty : Row := ⟨[], List.Pairwise.nil⟩

def insert (row : Row) (name : String) (cell : Cell) : Row :=
  ⟨place name cell row.entries, ascending_place name cell row.ascending⟩

def remove (row : Row) (name : String) : Row :=
  ⟨row.entries.filter fun entry => entry.1 != name, row.ascending.filter _⟩

def get? (row : Row) (name : String) : Option Cell := lookup name row.entries

def contains (row : Row) (name : String) : Bool := (row.get? name).isSome

def names (row : Row) : List String := row.entries.map (·.1)

def size (row : Row) : Nat := row.entries.length

def isEmpty (row : Row) : Bool := row.entries.isEmpty

/-- Cells in a list, a later one in place of an earlier one of the same name. -/
def ofList (entries : List (String × Cell)) : Row :=
  entries.foldl (fun row entry => row.insert entry.1 entry.2) empty

instance : DecidableEq Row := fun first second =>
  decidable_of_iff (first.entries = second.entries)
    ⟨fun same => by cases first; cases second; simp_all, fun same => same ▸ rfl⟩

/-! ## Lookups -/

@[simp] theorem get?_empty (name : String) : empty.get? name = none := rfl

theorem lookup_place (name other : String) (cell : Cell) (entries : List (String × Cell)) :
    lookup other (place name cell entries) =
      if other = name then some cell else lookup other entries := by
  induction entries with
  | nil => simp [place, lookup]
  | cons head rest ih =>
      unfold place
      split
      · simp [lookup]
      · split
        · rename_i equal
          by_cases same : other = name <;> simp [lookup, same, ← equal]
        · rename_i different
          by_cases here : other = head.1
          · have apart : head.1 ≠ name := fun equal => different equal.symm
            simp [lookup, here, apart]
          · simp [lookup, here, ih]

theorem get?_insert (row : Row) (name other : String) (cell : Cell) :
    (row.insert name cell).get? other = if other = name then some cell else row.get? other :=
  lookup_place name other cell row.entries

theorem lookup_eq_none_of_below {name : String} {entries : List (String × Cell)}
    (below : ∀ entry ∈ entries, name < entry.1) : lookup name entries = none := by
  induction entries with
  | nil => rfl
  | cons head rest ih =>
      have apart : name ≠ head.1 := fun equal =>
        String.lt_irrefl _ (equal ▸ below head List.mem_cons_self)
      rw [lookup, if_neg apart]
      exact ih fun entry member => below entry (List.mem_cons_of_mem _ member)

theorem entries_eq_of_lookup_eq {first second : List (String × Cell)} (ordered : Ascending first)
    (sorted : Ascending second) (same : ∀ name, lookup name first = lookup name second) :
    first = second := by
  induction first generalizing second with
  | nil =>
      cases second with
      | nil => rfl
      | cons other others => simpa [lookup] using same other.1
  | cons head rest ih =>
      obtain ⟨above, orderedRest⟩ := List.pairwise_cons.mp ordered
      cases second with
      | nil => simpa [lookup] using same head.1
      | cons other others =>
          obtain ⟨higher, sortedRest⟩ := List.pairwise_cons.mp sorted
          have notBelow : ¬head.1 < other.1 := fun below => by
            have absent : lookup head.1 (other :: others) = none :=
              lookup_eq_none_of_below fun entry member => by
                rcases List.mem_cons.mp member with here | inRest
                · exact here ▸ below
                · exact String.lt_trans below (higher entry inRest)
            have present := same head.1
            rw [absent, lookup, if_pos rfl] at present
            contradiction
          have notAbove : ¬other.1 < head.1 := fun below => by
            have absent : lookup other.1 (head :: rest) = none :=
              lookup_eq_none_of_below fun entry member => by
                rcases List.mem_cons.mp member with here | inRest
                · exact here ▸ below
                · exact String.lt_trans below (above entry inRest)
            have present := same other.1
            rw [absent, lookup, if_pos rfl] at present
            contradiction
          have names : head.1 = other.1 :=
            String.le_antisymm (String.not_lt.mp notAbove) (String.not_lt.mp notBelow)
          have cells : head.2 = other.2 := by
            simpa [lookup, names] using same head.1
          have tails : rest = others := by
            refine ih orderedRest sortedRest fun name => ?_
            by_cases here : name = head.1
            · rw [here, lookup_eq_none_of_below above,
                lookup_eq_none_of_below fun entry member => names ▸ higher entry member]
            · have apart : name ≠ other.1 := names ▸ here
              simpa [lookup, here, apart] using same name
          rw [tails, Prod.ext names cells]

theorem ext_get? {first second : Row} (same : ∀ name, first.get? name = second.get? name) :
    first = second := by
  have entries := entries_eq_of_lookup_eq first.ascending second.ascending same
  cases first
  cases second
  simp_all

end Row

end PackedTables
