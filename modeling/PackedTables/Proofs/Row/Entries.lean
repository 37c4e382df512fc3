import PackedTables.Row.Basic

/-!
# The entries of rows

A name is looked up as the one entry of that name.  A row put together from entries of distinct
names has these entries and no others.
-/

namespace PackedTables.Row

variable {row : Row} {name : String} {cell : Cell} {entries : List (String × Cell)}

theorem lookup_isSome_iff :
    (lookup name entries).isSome = true ↔ name ∈ entries.map (·.1) := by
  induction entries with
  | nil => simp [lookup]
  | cons entry rest ih =>
      by_cases here : name = entry.1 <;> simp [lookup, here, ih]

theorem mem_names_iff : name ∈ row.names ↔ (row.get? name).isSome = true :=
  lookup_isSome_iff.symm

theorem get?_foldl_insert (start : Row) (distinct : (entries.map (·.1)).Nodup) :
    (entries.foldl (fun row entry => row.insert entry.1 entry.2) start).get? name = some cell ↔
      (name, cell) ∈ entries ∨ name ∉ entries.map (·.1) ∧ start.get? name = some cell := by
  induction entries generalizing start with
  | nil => simp
  | cons entry rest ih =>
      obtain ⟨fresh, others⟩ := List.nodup_cons.mp distinct
      rw [List.foldl_cons, ih _ others, get?_insert]
      by_cases here : name = entry.1
      · subst here
        rw [if_pos rfl, Option.some.injEq]
        constructor
        · rintro (found | ⟨-, rfl⟩)
          · exact absurd (List.mem_map.mpr ⟨_, found, rfl⟩) fresh
          · exact Or.inl List.mem_cons_self
        · rintro (found | ⟨absent, -⟩)
          · rcases List.mem_cons.mp found with equal | inRest
            · exact Or.inr ⟨fresh, congrArg Prod.snd equal.symm⟩
            · exact Or.inl inRest
          · exact absurd List.mem_cons_self absent
      · have apart : (name, cell) ≠ entry := fun equal => here (congrArg Prod.fst equal)
        simp [here, apart]

theorem get?_ofList (distinct : (entries.map (·.1)).Nodup) :
    (ofList entries).get? name = some cell ↔ (name, cell) ∈ entries := by
  rw [ofList, get?_foldl_insert empty distinct]
  simp

theorem get?_ofList_eq_none_iff (distinct : (entries.map (·.1)).Nodup) :
    (ofList entries).get? name = none ↔ name ∉ entries.map (·.1) := by
  rw [Option.eq_none_iff_forall_ne_some]
  constructor
  · intro absent member
    obtain ⟨entry, found, rfl⟩ := List.mem_map.mp member
    exact absent entry.2 ((get?_ofList distinct).mpr found)
  · intro absent cell found
    exact absent (List.mem_map.mpr ⟨_, (get?_ofList distinct).mp found, rfl⟩)

end PackedTables.Row
