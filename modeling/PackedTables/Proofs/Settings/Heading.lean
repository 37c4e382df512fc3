import PackedTables.Proofs.Settings.Overlay

/-!
# Where members lead

A member of a source leads into one member of the tree that it is laid over, the one that its path
names first.  It reads and changes no other.  So trees that differ in one part only take all members
that lead elsewhere alike, and members that lead into that part can be left out.
-/

namespace PackedTables

/-! ## Lower case -/

theorem lowerChar_lowerChar (c : Char) : lowerChar (lowerChar c) = lowerChar c := by
  by_cases kelvin : c = kelvinSign
  · rw [kelvin]
    decide
  · have lower : lowerChar c = c.toLower := if_neg kelvin
    have code : kelvinSign.val = 0x212A := by decide
    rw [lower]
    by_cases upper : 'A'.val ≤ c.val ∧ c.val ≤ 'Z'.val
    · have value : c.toLower.val = c.val + 32 := by
        unfold Char.toLower
        rw [dif_pos upper]
        rfl
      have apart : c.toLower ≠ kelvinSign := by grind
      have settled : ¬('A'.val ≤ c.toLower.val ∧ c.toLower.val ≤ 'Z'.val) := by grind
      exact (if_neg apart).trans (dif_neg settled)
    · have kept : c.toLower = c := dif_neg upper
      rw [kept, lower, kept]

theorem lowerCase_ofList {chars : List Char} (lower : ∀ c ∈ chars, lowerChar c = c) :
    lowerCase (String.ofList chars) = String.ofList chars := by
  rw [lowerCase, String.toList_ofList, List.map_congr_left lower, List.map_id']

theorem lowerChar_of_mem {text : String} {c : Char} (member : c ∈ (lowerCase text).toList) :
    lowerChar c = c := by
  rw [lowerCase, String.toList_ofList] at member
  obtain ⟨upper, -, rfl⟩ := List.mem_map.mp member
  exact lowerChar_lowerChar upper

theorem lowerCase_lowerCase (text : String) : lowerCase (lowerCase text) = lowerCase text := by
  rw [lowerCase, List.map_congr_left fun c => lowerChar_of_mem, List.map_id', String.ofList_toList]

namespace Tree

variable {name hidden : String} {first second members : Members}

/-! ## The first step -/

theorem nameFrom?_eq_some {chars rest : List Char} {step : Step}
    (read : nameFrom? chars = some (step, rest)) :
    step = .member (String.ofList (chars.takeWhile isNameChar)) := by
  unfold nameFrom? at read
  split at read
  · cases read
  · rw [Option.some.injEq, Prod.mk.injEq] at read
    exact read.1.symm

/-- A path starts with a member, whose name is in lower case. -/
theorem exists_pathOf (key : String) :
    ∃ name path, pathOf (lowerCase key) = .member name :: path ∧ lowerCase name = name := by
  unfold pathOf path?
  cases read : nameFrom? (lowerCase key).toList with
  | none => exact ⟨_, [], rfl, lowerCase_lowerCase key⟩
  | some entry =>
      obtain ⟨step, rest⟩ := entry
      cases more : stepsFrom? rest.length rest with
      | none =>
          refine ⟨lowerCase key, [], ?_, lowerCase_lowerCase key⟩
          simp [more]
      | some steps =>
          -- The first name is a piece of a text that is in lower case already.
          obtain rfl := nameFrom?_eq_some read
          have lower (c : Char) (member : c ∈ (lowerCase key).toList.takeWhile isNameChar) :
              lowerChar c = c :=
            lowerChar_of_mem ((List.takeWhile_prefix isNameChar).subset member)
          exact ⟨_, steps, by simp [more], lowerCase_ofList lower⟩

/-- The name of the member into which a path leads. -/
def headName : List Step → String
  | .member name :: _ => name
  | _ => ""

/-- The name of the member into which a key leads. -/
def heading (key : String) : String := headName (pathOf (lowerCase key))

theorem exists_heading (key : String) :
    ∃ path, pathOf (lowerCase key) = .member (heading key) :: path ∧
      lowerCase (heading key) = heading key := by
  obtain ⟨name, path, steps, lower⟩ := exists_pathOf key
  have headed : heading key = name := by rw [heading, steps, headName]
  rw [headed]
  exact ⟨path, steps, lower⟩

/-- What a tree makes of the member into which it is laid, when it goes on along a path there. -/
def relaid? (tree : Tree) : List Step → Option Tree → Option Tree
  | [], old =>
      match tree with
      | .table incoming => some (layMembers (old.getD (.table [])) incoming)
      | leaf => some leaf
  | step :: path, old => layAt? tree (step :: path) (old.getD .empty)

/-- One step along a path changes one member, from what stood there alone. -/
theorem layAt?_member (lower : lowerCase name = name) (tree : Tree) (path : List Step)
    (root : Members) :
    layAt? tree (.member name :: path) (.table root) =
      (relaid? tree path (member? name root)).map fun laid => .table (put name laid root) := by
  cases path with
  | nil =>
      rw [layAt?]
      cases tree with
      | table incoming =>
          rw [layUnder, lower]
          rfl
      | _ =>
          rw [layUnder, lower]
          · rfl
          · simp
  | cons step path =>
      rw [layAt?]
      · rfl
      · simp

/-! ## Members that lead elsewhere -/

theorem member?_put_self (name : String) (tree : Tree) (members : Members) :
    member? name (put name tree members) = some tree := by
  rw [member?_put, if_pos rfl]

theorem member?_put_of_ne (apart : hidden ≠ name) (tree : Tree) (members : Members) :
    member? hidden (put name tree members) = member? hidden members := by
  rw [member?_put, if_neg apart]

/-- Members that are the same under every name but one. -/
def Beside (hidden : String) (first second : Members) : Prop :=
  ∀ part, part ≠ hidden → member? part first = member? part second

theorem Beside.symm (beside : Beside hidden first second) : Beside hidden second first :=
  fun part apart => (beside part apart).symm

theorem Beside.trans (beside : Beside hidden first second) (after : Beside hidden second members) :
    Beside hidden first members :=
  fun part apart => (beside part apart).trans (after part apart)

theorem beside_put (hidden : String) (tree : Tree) (members : Members) :
    Beside hidden (put hidden tree members) members :=
  fun _ apart => member?_put_of_ne apart tree members

theorem Beside.put (beside : Beside hidden first second) (name : String) (tree : Tree) :
    Beside hidden (Tree.put name tree first) (Tree.put name tree second) := by
  intro part apart
  rw [member?_put, member?_put, beside part apart]

theorem overlay?_cons (member : String × Tree) (members : Members) (root : Tree) :
    root.overlay? (member :: members) =
      (layAt? member.2 (pathOf (lowerCase member.1)) root).bind (overlay? · members) := by
  unfold overlay?
  rw [List.foldlM_cons, Option.bind_eq_bind]

theorem overlay?_append (front back : Members) (root : Tree) :
    root.overlay? (front ++ back) = (root.overlay? front).bind (overlay? · back) :=
  List.foldlM_append

theorem layAt?_table {member : String × Tree} {laid : Tree}
    (reached : layAt? member.2 (pathOf (lowerCase member.1)) (.table first) = some laid) :
    ∃ relaid, laid = .table (put (heading member.1) relaid first) := by
  obtain ⟨path, steps, lower⟩ := exists_heading member.1
  rw [steps, layAt?_member lower] at reached
  obtain ⟨relaid, -, rfl⟩ := Option.map_eq_some_iff.mp reached
  exact ⟨relaid, rfl⟩

/-- What is laid over a table is a table. -/
theorem overlay?_table {laid : Tree} (reached : (Tree.table first).overlay? members = some laid) :
    ∃ done, laid = .table done := by
  induction members generalizing first with
  | nil => exact ⟨first, (Option.some.inj reached).symm⟩
  | cons member rest ih =>
      rw [overlay?_cons] at reached
      obtain ⟨next, here, there⟩ := Option.bind_eq_some_iff.mp reached
      obtain ⟨relaid, rfl⟩ := layAt?_table here
      exact ih there

/-- A member that leads elsewhere changes both tables alike, or is refused by both. -/
theorem layAt?_beside {member : String × Tree} (beside : Beside hidden first second)
    (apart : heading member.1 ≠ hidden) :
    (layAt? member.2 (pathOf (lowerCase member.1)) (.table first) = none ∧
      layAt? member.2 (pathOf (lowerCase member.1)) (.table second) = none) ∨
    ∃ laid,
      layAt? member.2 (pathOf (lowerCase member.1)) (.table first) =
        some (.table (put (heading member.1) laid first)) ∧
      layAt? member.2 (pathOf (lowerCase member.1)) (.table second) =
        some (.table (put (heading member.1) laid second)) := by
  obtain ⟨path, steps, lower⟩ := exists_heading member.1
  rw [steps, layAt?_member lower, layAt?_member lower, beside _ apart]
  cases relaid? member.2 path (member? (heading member.1) second) with
  | none => exact .inl ⟨rfl, rfl⟩
  | some laid => exact .inr ⟨laid, rfl, rfl⟩

/-! ## Members left out -/

/-- A member that leads elsewhere than into one place. -/
def leadsBeside (hidden : String) (member : String × Tree) : Bool := heading member.1 != hidden

theorem leadsBeside_iff {member : String × Tree} :
    leadsBeside hidden member = true ↔ heading member.1 ≠ hidden :=
  bne_iff_ne

/-- A key that leads from name to name, and never to an item of a list. -/
def ByNames (key : String) : Prop := ∀ step ∈ pathOf (lowerCase key), ∃ name, step = .member name

/-- What lies behind names alone is always within reach. -/
theorem exists_layAt? {path : List Step} (byNames : ∀ step ∈ path, ∃ name, step = .member name)
    (tree root : Tree) : ∃ laid, layAt? tree path root = some laid := by
  induction path generalizing root with
  | nil => exact ⟨tree, by rw [layAt?]⟩
  | cons step path ih =>
      obtain ⟨⟨name, rfl⟩, later⟩ := List.forall_mem_cons.mp byNames
      cases path with
      | nil => exact ⟨layUnder root name tree, by rw [layAt?]⟩
      | cons next path =>
          obtain ⟨laid, reached⟩ := ih later ((member? name root.members).getD .empty)
          refine ⟨.table (put name laid root.members), ?_⟩
          rw [layAt?, reached]
          · rfl
          · simp

theorem exists_layAt?_table {member : String × Tree} (byNames : ByNames member.1)
    (root : Members) : ∃ laid,
      layAt? member.2 (pathOf (lowerCase member.1)) (.table root) =
        some (.table (put (heading member.1) laid root)) := by
  obtain ⟨tree, reached⟩ := exists_layAt? byNames member.2 (.table root)
  obtain ⟨laid, rfl⟩ := layAt?_table reached
  exact ⟨laid, reached⟩

/--
Members that lead into one place by names can be left out: all others are laid, or refused, as they
were, and where the others alone are laid, that place is kept.
-/
theorem overlay?_filter (beside : Beside hidden first second)
    (byNames : ∀ member ∈ members, heading member.1 = hidden → ByNames member.1) :
    ((Tree.table first).overlay? members = none ∧
      (Tree.table second).overlay? (members.filter (leadsBeside hidden)) = none) ∨
    ∃ laid relaid,
      (Tree.table first).overlay? members = some (.table laid) ∧
      (Tree.table second).overlay? (members.filter (leadsBeside hidden)) =
        some (.table relaid) ∧
      Beside hidden laid relaid ∧ member? hidden relaid = member? hidden second := by
  induction members generalizing first second with
  | nil => exact .inr ⟨first, second, rfl, rfl, beside, rfl⟩
  | cons member rest ih =>
      obtain ⟨here, there⟩ := List.forall_mem_cons.mp byNames
      rw [overlay?_cons]
      by_cases inside : heading member.1 = hidden
      · have dropped : ¬leadsBeside hidden member = true :=
          mt leadsBeside_iff.mp (not_not_intro inside)
        obtain ⟨tree, reached⟩ := exists_layAt?_table (here inside) first
        rw [List.filter_cons_of_neg dropped, reached, Option.bind_some, inside]
        exact ih ((beside_put hidden tree first).trans beside) there
      · rw [List.filter_cons_of_pos (leadsBeside_iff.mpr inside), overlay?_cons]
        rcases layAt?_beside beside inside with ⟨refused, refused'⟩ | ⟨tree, reached, reached'⟩
        · rw [refused, refused']
          exact .inl ⟨rfl, rfl⟩
        · have later := ih (beside.put (heading member.1) tree) there
          rw [member?_put_of_ne (Ne.symm inside)] at later
          rw [reached, reached']
          exact later

end Tree

end PackedTables
