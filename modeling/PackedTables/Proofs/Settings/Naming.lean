import Mathlib.Data.List.Induction
import PackedTables.Proofs.Settings.Heading
import PackedTables.Settings.Load

/-!
# The namespace of a tree

What a tree names its world is found in one place.  Members of a file can set it there and say
otherwise the same as before; the path of the variable for the namespace leads there too.  Trees that
differ in the world only, but name it alike, are the same settings.
-/

namespace PackedTables

namespace Tree

variable {name part : String} {incoming : Members} {leaf : Tree}

/-! ## Members that set the namespace -/

/-- A table whose world is a table with this namespace. -/
def HasNamespace (leaf : Tree) (root : Members) : Prop :=
  ∃ world, member? "world" root = some (.table world) ∧ member? "namespace" world = some leaf

/--
Members that do the same as others, but set the namespace of the world to a text.  Over every table
both are refused, or both lay the same but for the world, which has that namespace then.
-/
def Renames (name : String) (members renamed : Members) : Prop :=
  ∀ root : Members,
    ((Tree.table root).overlay? members = none ∧ (Tree.table root).overlay? renamed = none) ∨
    ∃ laid relaid,
      (Tree.table root).overlay? members = some (.table laid) ∧
      (Tree.table root).overlay? renamed = some (.table relaid) ∧
      Beside "world" laid relaid ∧ HasNamespace (.text name) relaid

theorem exists_layUnder (root : Tree) (name : String) (tree : Tree) :
    ∃ laid, layUnder root name tree = .table (put (lowerCase name) laid root.members) := by
  cases tree with
  | table incoming => exact ⟨_, by rw [layUnder]⟩
  | _ => exact ⟨_, layUnder_leaf (by exact trivial) root name⟩

theorem layMembers_append (target : Tree) (front back : Members) :
    layMembers target (front ++ back) = layMembers (layMembers target front) back := by
  induction front generalizing target with
  | nil => rw [List.nil_append, layMembers]
  | cons member rest ih => rw [List.cons_append, layMembers, layMembers, ih]

/-- Members of other names keep what stands under a name. -/
theorem layMembers_kept (first : Members)
    (others : ∀ member ∈ incoming, lowerCase member.1 ≠ part) :
    ∃ done, layMembers (.table first) incoming = .table done ∧
      member? part done = member? part first := by
  induction incoming generalizing first with
  | nil => exact ⟨first, by rw [layMembers], rfl⟩
  | cons member rest ih =>
      obtain ⟨here, there⟩ := List.forall_mem_cons.mp others
      obtain ⟨laid, under⟩ := exists_layUnder (.table first) member.1 member.2
      obtain ⟨done, reached, kept⟩ := ih (put (lowerCase member.1) laid first) there
      refine ⟨done, ?_, ?_⟩
      · rw [layMembers, under]
        exact reached
      · rw [kept, member?_put_of_ne (Ne.symm here)]

theorem layUnder_namespace (isLeaf : leaf.IsLeaf) (root : Tree) :
    layUnder root "namespace" leaf = .table (put "namespace" leaf root.members) := by
  have lower : lowerCase "namespace" = "namespace" := by decide
  rw [layUnder_leaf isLeaf, lower]

/-- The text that is laid last under the name of the namespace stays there. -/
theorem exists_layMembers (target : Tree) (name : String) (ahead : Members) {behind : Members}
    (last : ∀ member ∈ behind, lowerCase member.1 ≠ "namespace") :
    ∃ world,
      layMembers target (ahead ++ ("namespace", .text name) :: behind) = .table world ∧
      member? "namespace" world = some (.text name) := by
  have isLeaf : (Tree.text name).IsLeaf := trivial
  obtain ⟨world, reached, kept⟩ :=
    layMembers_kept (put "namespace" (.text name) (layMembers target ahead).members) last
  refine ⟨world, ?_, ?_⟩
  · rw [layMembers_append, layMembers, layUnder_namespace isLeaf, reached]
  · rw [kept, member?_put_self]

theorem lowerCase_world : lowerCase "world" = "world" := by decide

theorem pathOf_world : pathOf (lowerCase "world") = [.member "world"] := by decide

/--
The members of a file, and those of the same file when it sets the namespace in the table of the
world.  They are the same up to this table, and behind it they are the same but for all that leads
into the world.  What leads to items of lists there may be refused, so it is never left out.
-/
inductive SetsNamespace (name : String) : Members → Members → Prop
  | intro (front rest ahead behind : Members)
      (byNames : ∀ member ∈ rest, heading member.1 = "world" → ByNames member.1)
      (last : ∀ member ∈ behind, lowerCase member.1 ≠ "namespace") :
      SetsNamespace name (front ++ rest)
        (front ++ ("world", .table (ahead ++ ("namespace", .text name) :: behind)) ::
          rest.filter (leadsBeside "world"))

/-- The table of the world has its namespace, whatever stood in its place. -/
theorem layAt?_world (name : String) (ahead : Members) {behind : Members}
    (last : ∀ member ∈ behind, lowerCase member.1 ≠ "namespace") (root : Members) :
    ∃ world, layAt? (.table (ahead ++ ("namespace", .text name) :: behind))
        (pathOf (lowerCase "world")) (.table root) = some (.table (put "world" (.table world) root)) ∧
      member? "namespace" world = some (.text name) := by
  obtain ⟨world, named, isText⟩ :=
    exists_layMembers ((member? "world" root).getD (.table [])) name ahead last
  refine ⟨world, ?_, isText⟩
  rw [pathOf_world, layAt?, layUnder, lowerCase_world, members, named]

theorem renames_of_parts (name : String) (front rest ahead behind : Members)
    (byNames : ∀ member ∈ rest, heading member.1 = "world" → ByNames member.1)
    (last : ∀ member ∈ behind, lowerCase member.1 ≠ "namespace") :
    Renames name (front ++ rest)
      (front ++ ("world", .table (ahead ++ ("namespace", .text name) :: behind)) ::
        rest.filter (leadsBeside "world")) := by
  intro root
  rw [overlay?_append, overlay?_append]
  cases laidFront : (Tree.table root).overlay? front with
  | none => exact .inl ⟨rfl, rfl⟩
  | some tree =>
      obtain ⟨done, rfl⟩ := overlay?_table laidFront
      obtain ⟨world, laidWorld, isText⟩ := layAt?_world name ahead last done
      have besideWorld : Beside "world" done (put "world" (.table world) done) :=
        (beside_put "world" (.table world) done).symm
      -- The two runs differ in the world only now, and no member of the second one leads there.
      rw [Option.bind_some, Option.bind_some, overlay?_cons, laidWorld, Option.bind_some]
      rcases overlay?_filter besideWorld byNames with refused | ⟨laid, relaid, laidRest, laidRest',
        beside, kept⟩
      · exact .inl refused
      · refine .inr ⟨laid, relaid, laidRest, laidRest', beside, world, ?_, isText⟩
        rw [kept, member?_put_self]

theorem SetsNamespace.renames {before after : Members} (sets : SetsNamespace name before after) :
    Renames name before after := by
  cases sets with
  | intro front rest ahead behind byNames last =>
      exact renames_of_parts name front rest ahead behind byNames last

/-- A file that sets the namespace, and says nothing else. -/
theorem setsNamespace_nil (name : String) :
    SetsNamespace name [] [("world", .table [("namespace", .text name)])] :=
  .intro [] [] [] [] (by simp) (by simp)

/-- A file whose table of the world comes first, and that leads into the world nowhere else. -/
theorem setsNamespace_cons (name : String) (tree : Tree) {others : Members}
    (apart : ∀ member ∈ others, heading member.1 ≠ "world") :
    SetsNamespace name (("world", tree) :: others)
      (("world", .table [("namespace", .text name)]) :: others) := by
  have world : ByNames "world" := by
    intro step listed
    rw [pathOf_world, List.mem_singleton] at listed
    exact ⟨"world", listed⟩
  have byNames : ∀ member ∈ ("world", tree) :: others,
      heading member.1 = "world" → ByNames member.1 :=
    List.forall_mem_cons.mpr
      ⟨fun _ => world, fun member listed inside => absurd inside (apart member listed)⟩
  have left : (("world", tree) :: others).filter (leadsBeside "world") = others := by
    have inside : heading "world" = "world" := by decide
    have dropped : ¬leadsBeside "world" ("world", tree) = true :=
      mt leadsBeside_iff.mp (not_not_intro inside)
    rw [List.filter_cons_of_neg dropped]
    exact List.filter_eq_self.mpr fun member listed => leadsBeside_iff.mpr (apart member listed)
  have sets : SetsNamespace name ([] ++ ("world", tree) :: others) _ :=
    .intro [] (("world", tree) :: others) [] [] byNames (by simp)
  rwa [left] at sets

/-! ## The variable for the namespace -/

theorem pathOf_namespace :
    pathOf (lowerCase "world.namespace") = [.member "world", .member "namespace"] := by
  decide

/-- The path to the namespace makes the world a table, and changes nothing else. -/
theorem overlay?_namespace (isLeaf : leaf.IsLeaf) (root : Members) :
    ∃ laid, (Tree.table root).overlay? [("world.namespace", leaf)] = some (.table laid) ∧
      Beside "world" laid root ∧ HasNamespace leaf laid := by
  let world := put "namespace" leaf ((member? "world" root).getD .empty).members
  have inner (target : Tree) : layAt? leaf [.member "namespace"] target =
      some (.table (put "namespace" leaf target.members)) := by
    rw [layAt?, layUnder_namespace isLeaf]
  have named : HasNamespace leaf (put "world" (.table world) root) :=
    ⟨world, member?_put_self "world" _ root, member?_put_self "namespace" leaf _⟩
  refine ⟨put "world" (.table world) root, ?_, beside_put "world" (.table world) root, named⟩
  rw [overlay?_cons, pathOf_namespace, layAt?, inner]
  · rfl
  · simp

end Tree

namespace Environment

/-- An environment in which the namespace is set, and no other setting. -/
structure NamesOnly (name : String) (environment : List (String × String)) : Prop where
  named : ("WORLD__WORLD__NAMESPACE", name) ∈ environment
  silent : ∀ entry ∈ environment,
    entry = ("WORLD__WORLD__NAMESPACE", name) ∨ pathText? entry.1 = none

theorem pathText?_namespace : pathText? "WORLD__WORLD__NAMESPACE" = some "world.namespace" := by
  decide

theorem members_concat (environment : List (String × String)) (entry : String × String) :
    members (environment ++ [entry]) =
      match pathText? entry.1 with
      | some path => Tree.put path (valueOf entry.2) (members environment)
      | none => members environment := by
  cases named : pathText? entry.1 with
  | none => simp [members, named]
  | some path => simp [members, named]

theorem members_of_silent_or {name : String} {environment : List (String × String)}
    (silent : ∀ entry ∈ environment,
      entry = ("WORLD__WORLD__NAMESPACE", name) ∨ pathText? entry.1 = none) :
    members environment = if ("WORLD__WORLD__NAMESPACE", name) ∈ environment then
      [("world.namespace", valueOf name)] else [] := by
  induction environment using List.reverseRecOn with
  | nil => rfl
  | append_singleton rest entry ih =>
      obtain ⟨before, last⟩ := List.forall_mem_append.mp silent
      rw [members_concat, ih before]
      rcases last entry List.mem_cons_self with rfl | quiet
      · rw [pathText?_namespace, if_pos (List.mem_append_right _ List.mem_cons_self)]
        dsimp only
        split <;> rfl
      · have apart : ("WORLD__WORLD__NAMESPACE", name) ≠ entry := by
          rintro rfl
          rw [pathText?_namespace] at quiet
          cases quiet
        rw [quiet]
        simp only [List.mem_append, List.mem_singleton, apart, or_false]

theorem NamesOnly.members_eq {name : String} {environment : List (String × String)}
    (only : NamesOnly name environment) :
    members environment = [("world.namespace", valueOf name)] := by
  rw [members_of_silent_or only.silent, if_pos only.named]

end Environment

namespace Settings

variable {name : String} {leaf other : Tree} {root first second : Tree.Members}
  {settings : Settings}

/-! ## Settings of a tree with a namespace -/

theorem ofTree?_of_hasNamespace (has : Tree.HasNamespace leaf root) (text : leaf.text? = some name) :
    ofTree? (.table root) = (do
      return ⟨name, ← Tree.part SchemaRules.ofTree? standard.schema (Tree.member? "validation" root),
        ← Tree.part CodecRules.ofTree? standard.codec (Tree.member? "codec" root)⟩) := by
  obtain ⟨world, inRoot, inWorld⟩ := has
  have named : Tree.part worldOfTree? standard.worldNamespace (Tree.member? "world" root) =
      some name := by
    rw [inRoot, Tree.part, worldOfTree?, Tree.parts?, List.map_singleton, inWorld]
    exact text
  change (Tree.part worldOfTree? _ (Tree.member? "world" root)).bind _ = _
  rw [named]
  rfl

/-- Trees that differ in the world only, but name it by the same text, are the same settings. -/
theorem ofTree?_eq_of_beside (beside : Tree.Beside "world" first second)
    (has : Tree.HasNamespace leaf first) (text : leaf.text? = some name)
    (has' : Tree.HasNamespace other second) (text' : other.text? = some name) :
    ofTree? (.table first) = ofTree? (.table second) := by
  rw [ofTree?_of_hasNamespace has text, ofTree?_of_hasNamespace has' text',
    beside "validation" (by decide), beside "codec" (by decide)]

theorem worldNamespace_of_ofTree? (has : Tree.HasNamespace leaf root) (text : leaf.text? = some name)
    (read : ofTree? (.table root) = some settings) : settings.worldNamespace = name := by
  rw [ofTree?_of_hasNamespace has text] at read
  obtain ⟨schema, -, read⟩ := Option.bind_eq_some_iff.mp read
  obtain ⟨codec, -, read⟩ := Option.bind_eq_some_iff.mp read
  exact congrArg worldNamespace (Option.some.inj read).symm

end Settings

end PackedTables
