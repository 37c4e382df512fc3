import PackedTables.Settings.Path

/-!
# Laying plain tables over nothing

Tables whose names are in lower case, and are paths of one step, are laid over an empty tree as they
are.
-/

namespace PackedTables.Tree

variable {name : String} {tree : Tree} {done incoming : Members}
  {parts : List (String × Members)}

/-- A member whose name is none of those before it can be put after them. -/
theorem fresh_of_nodup {α : Type} {before : List (String × α)} {after : List String}
    (member : String × α) (distinct : (before.map (·.1) ++ member.1 :: after).Nodup) :
    member.1 ∉ before.map (·.1) ∧ ((before ++ [member]).map (·.1) ++ after).Nodup := by
  refine ⟨fun listed => ?_, ?_⟩
  · exact (List.nodup_append.mp distinct).2.2 _ listed _ List.mem_cons_self rfl
  · rw [List.map_append, List.append_assoc]
    exact distinct

theorem put_of_absent (absent : name ∉ done.map (·.1)) (tree : Tree) :
    put name tree done = done ++ [(name, tree)] := by
  induction done with
  | nil => rfl
  | cons member rest ih =>
      rw [List.map_cons, List.mem_cons, not_or] at absent
      rw [put, if_neg (Ne.symm absent.1), ih absent.2]
      rfl

theorem member?_of_absent (absent : name ∉ done.map (·.1)) : member? name done = none := by
  induction done with
  | nil => rfl
  | cons member rest ih =>
      rw [List.map_cons, List.mem_cons, not_or] at absent
      rw [member?, if_neg absent.1, ih absent.2]

/-- A tree that is laid instead of what was there, not member by member. -/
def IsLeaf : Tree → Prop
  | .table _ => False
  | _ => True

/-- Members in lower case, under names of their own, none of which is a table. -/
structure Flat (incoming : Members) : Prop where
  distinct : (incoming.map (·.1)).Nodup
  lower : ∀ name ∈ incoming.map (·.1), lowerCase name = name
  leaves : ∀ member ∈ incoming, member.2.IsLeaf

theorem layUnder_leaf (leaf : tree.IsLeaf) (root : Tree) (name : String) :
    layUnder root name tree = .table (put (lowerCase name) tree root.members) := by
  cases tree with
  | table incoming => cases leaf
  | _ => rw [layUnder]; simp

theorem layMembers_flat (distinct : (done.map (·.1) ++ incoming.map (·.1)).Nodup)
    (lower : ∀ name ∈ incoming.map (·.1), lowerCase name = name)
    (leaves : ∀ member ∈ incoming, member.2.IsLeaf) :
    layMembers (.table done) incoming = .table (done ++ incoming) := by
  induction incoming generalizing done with
  | nil => rw [layMembers, List.append_nil]
  | cons member rest ih =>
      rw [List.map_cons] at distinct lower
      obtain ⟨lowerHere, lowerThere⟩ := List.forall_mem_cons.mp lower
      obtain ⟨leafHere, leafThere⟩ := List.forall_mem_cons.mp leaves
      obtain ⟨absent, later⟩ := fresh_of_nodup member distinct
      rw [layMembers, layUnder_leaf leafHere, lowerHere, members, put_of_absent absent,
        ih later lowerThere leafThere, List.append_assoc]
      rfl

/-- A name that is a path of one step, and in lower case. -/
structure IsStep (name : String) : Prop where
  lower : lowerCase name = name
  path : path? name = some [.member name]

theorem overlay?_flat (distinct : (done.map (·.1) ++ parts.map (·.1)).Nodup)
    (steps : ∀ part ∈ parts, IsStep part.1) (flat : ∀ part ∈ parts, Flat part.2) :
    (Tree.table done).overlay? (parts.map fun part => (part.1, .table part.2)) =
      some (.table (done ++ parts.map fun part => (part.1, .table part.2))) := by
  induction parts generalizing done with
  | nil =>
      rw [List.map_nil, List.append_nil]
      rfl
  | cons part rest ih =>
      obtain ⟨step, steps⟩ := List.forall_mem_cons.mp steps
      obtain ⟨here, there⟩ := List.forall_mem_cons.mp flat
      rw [List.map_cons] at distinct
      obtain ⟨absent, later⟩ := fresh_of_nodup (part.1, Tree.table part.2) distinct
      have laid : layUnder (.table done) part.1 (.table part.2) =
          .table (done ++ [(part.1, .table part.2)]) := by
        have inner : layMembers (.table []) part.2 = .table part.2 :=
          layMembers_flat here.distinct here.lower here.leaves
        rw [layUnder, step.lower, members, member?_of_absent absent, Option.getD_none, inner,
          put_of_absent absent]
      rw [List.map_cons, overlay?, List.foldlM_cons, step.lower, pathOf, step.path]
      change (some (layUnder (.table done) part.1 (.table part.2)) >>= fun root =>
        overlay? root (rest.map _)) = _
      rw [laid]
      change overlay? _ _ = _
      rw [ih later steps there, List.append_assoc]
      rfl

end PackedTables.Tree
