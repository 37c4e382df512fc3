import PackedTables.Proofs.Layout.Sound
import PackedTables.World.Basic

/-!
# Drafts and worlds that can be reached

A draft is made empty and grows by tables.  Each table in it was prepared under its registry, its
settings and its namespace: the namespace changes only before the first table.  A world is a draft
that has been built.
-/

namespace PackedTables

/-! ## Registries -/

theorem Registry.Reachable.registerAll {registry next : Registry} (reachable : registry.Reachable)
    {enums : List EnumDeclaration} {aliases : List (String × String)}
    (accepted : registry.registerAll enums aliases = .ok next) : next.Reachable := by
  obtain ⟨middle, enumerated, aliased⟩ := Outcome.bind_eq_ok.mp accepted
  have reached : middle.Reachable :=
    Outcome.foldlM_keeps (fun _ _ _ before step => before.enumeration step) reachable enumerated
  exact Outcome.foldlM_keeps (fun _ _ _ before step => before.typeAlias step) reached aliased

namespace Draft

variable {draft next : Draft} {registry : Registry} {settings : Settings} {table : Table}
  {declaration : TableDeclaration}

/-! ## Steps -/

theorem inNamespace_eq_ok {name : String} (accepted : draft.inNamespace name = .ok next) :
    (draft.catalog.tables = [] ∨ name = draft.worldNamespace) ∧
      draft.settings.schema.checkNamespace name = .ok () ∧
      (Utf8.encode name).length ≤ TableId.namespaceWidth ∧
      next = { draft with worldNamespace := name } := by
  unfold inNamespace at accepted
  split at accepted
  · cases accepted
  · rename_i settled
    obtain ⟨checked, passed, continued⟩ := Outcome.bind_eq_ok.mp accepted
    obtain ⟨id, made, same⟩ := Outcome.bind_eq_ok.mp continued
    refine ⟨?_, passed, ?_, (Outcome.pure_eq_ok.mp same).symm⟩
    · rw [Catalog.isEmpty] at settled
      by_cases first : draft.catalog.tables = []
      · exact .inl first
      · exact .inr (by simpa [first] using settled)
    · unfold TableId.make at made
      split at made
      · cases made
      · omega

theorem prepare_eq_ok_iff :
    draft.prepare declaration = .ok table ↔
      draft.settings.schema.validate draft.registry declaration = .ok table.schema ∧
        Layout.plan draft.settings.schema table.schema = .ok table.layout ∧
        TableId.make draft.worldNamespace table.schema.name table.schema.offchain =
          .ok table.id := by
  constructor
  · intro prepared
    obtain ⟨schema, validated, continued⟩ := Outcome.bind_eq_ok.mp prepared
    obtain ⟨layout, planned, last⟩ := Outcome.bind_eq_ok.mp continued
    obtain ⟨id, made, same⟩ := Outcome.bind_eq_ok.mp last
    obtain rfl := Outcome.pure_eq_ok.mp same
    exact ⟨validated, planned, made⟩
  · rintro ⟨validated, planned, made⟩
    exact Outcome.bind_eq_ok.mpr ⟨_, validated, Outcome.bind_eq_ok.mpr ⟨_, planned,
      Outcome.bind_eq_ok.mpr ⟨_, made, rfl⟩⟩⟩

theorem register_eq_ok_iff :
    draft.register declaration = .ok next ↔
      draft.catalog.hasName declaration.name = false ∧
        ∃ table, draft.prepare declaration = .ok table ∧ draft.catalog.hasId table.id = false ∧
          next = { draft with catalog := draft.catalog.add table } := by
  constructor
  · intro accepted
    unfold register at accepted
    split at accepted
    · cases accepted
    · rename_i fresh
      split at accepted
      · cases accepted
      · rename_i table prepared
        split at accepted
        · cases accepted
        · rename_i free
          exact ⟨by simpa using fresh, table, prepared, by simpa using free,
            (Except.ok.inj accepted).symm⟩
  · rintro ⟨fresh, table, prepared, free, rfl⟩
    simp [register, fresh, prepared, free]

/-! ## Reachable drafts -/

/-- Drafts that come about by naming a namespace and by registering tables. -/
inductive Reachable : Draft → Prop
  | new {registry : Registry} : registry.Reachable → Reachable (new registry)
  | withSettings {registry : Registry} {settings : Settings} {draft : Draft} :
      registry.Reachable → withSettings registry settings = .ok draft → Reachable draft
  | inNamespace {draft next : Draft} {name : String} :
      Reachable draft → draft.inNamespace name = .ok next → Reachable next
  | register {draft next : Draft} {declaration : TableDeclaration} :
      Reachable draft → draft.register declaration = .ok next → Reachable next

theorem Reachable.registerAll (reachable : draft.Reachable) {declarations : List TableDeclaration}
    (accepted : draft.registerAll declarations = .ok next) : next.Reachable :=
  Outcome.foldlM_keeps (fun _ _ _ before step => before.register step) reachable accepted

/-- The registry can be reached, and each table was prepared as it would be now. -/
structure Sound (draft : Draft) : Prop where
  registry : draft.registry.Reachable
  tables : ∀ table ∈ draft.catalog.tables, ∃ declaration, draft.prepare declaration = .ok table

theorem sound_empty (reachable : registry.Reachable) (settings : Settings)
    (worldNamespace : String) : (empty registry settings worldNamespace).Sound :=
  ⟨reachable, fun _ member => absurd member List.not_mem_nil⟩

theorem Sound.inNamespace (sound : draft.Sound) {name : String}
    (accepted : draft.inNamespace name = .ok next) : next.Sound := by
  obtain ⟨first | same, -, -, rfl⟩ := inNamespace_eq_ok accepted
  · refine ⟨sound.registry, fun table member => ?_⟩
    rw [first] at member
    cases member
  · subst same
    exact sound

theorem Sound.register (sound : draft.Sound)
    (accepted : draft.register declaration = .ok next) : next.Sound := by
  obtain ⟨-, table, prepared, -, rfl⟩ := register_eq_ok_iff.mp accepted
  refine ⟨sound.registry, fun other member => ?_⟩
  rcases List.mem_append.mp member with old | added
  · exact sound.tables other old
  · obtain rfl := List.mem_singleton.mp added
    exact ⟨declaration, prepared⟩

theorem Reachable.sound (reachable : draft.Reachable) : draft.Sound := by
  induction reachable with
  | new registry => exact sound_empty registry _ _
  | withSettings registry accepted =>
      obtain ⟨settings, -, named⟩ := Outcome.bind_eq_ok.mp accepted
      exact (sound_empty registry settings _).inNamespace named
  | inNamespace before accepted ih => exact ih.inNamespace accepted
  | register before accepted ih => exact ih.register accepted

theorem length_word_of_prepare (prepared : draft.prepare declaration = .ok table) :
    table.id.word.length = 32 := by
  have made := (prepare_eq_ok_iff.mp prepared).2.2
  unfold TableId.make at made
  split at made
  · cases made
  · rename_i fits
    rw [← Except.ok.inj made]
    exact TableId.length_wordOf (by omega) _ _

theorem sound_of_prepare (reachable : draft.registry.Reachable)
    (prepared : draft.prepare declaration = .ok table) : table.layout.Sound := by
  obtain ⟨validated, planned, -⟩ := prepare_eq_ok_iff.mp prepared
  exact (Layout.stores_of_plan reachable validated planned).sound

end Draft

/-! ## Worlds -/

namespace World

def Reachable (world : World) : Prop := ∃ draft : Draft, draft.Reachable ∧ draft.build = world

variable {world : World} {table : Table}

/-- A declared world is built from all its tables at once, on a draft that has none. -/
theorem registerAll_of_ofDeclaration {declaration : WorldDeclaration} {settings : Settings}
    (accepted : ofDeclaration declaration settings = .ok world) :
    ∃ draft final : Draft, draft.Reachable ∧ draft.catalog = .empty ∧
      draft.registerAll declaration.tables = .ok final ∧ final.build = world := by
  obtain ⟨registry, registered, opened⟩ := Outcome.bind_eq_ok.mp accepted
  obtain ⟨first, started, named⟩ := Outcome.bind_eq_ok.mp opened
  have known := Registry.Reachable.standard.registerAll registered
  have start : first.Reachable := .withSettings known started
  have blank : first.catalog = .empty := by
    obtain ⟨settings, -, opened⟩ := Outcome.bind_eq_ok.mp started
    obtain ⟨-, -, -, rfl⟩ := Draft.inNamespace_eq_ok opened
    rfl
  have reached : ∃ draft : Draft, draft.Reachable ∧ draft.catalog = .empty ∧
      (draft.registerAll declaration.tables >>= fun draft => pure draft.build) = .ok world := by
    cases chosen : declaration.worldNamespace with
    | none =>
        rw [chosen] at named
        exact ⟨first, start, blank, named⟩
    | some name =>
        rw [chosen] at named
        obtain ⟨draft, settled, filled⟩ := Outcome.bind_eq_ok.mp named
        refine ⟨draft, start.inNamespace settled, ?_, filled⟩
        obtain ⟨-, -, -, rfl⟩ := Draft.inNamespace_eq_ok settled
        exact blank
  obtain ⟨draft, before, none, filled⟩ := reached
  obtain ⟨final, listed, built⟩ := Outcome.bind_eq_ok.mp filled
  exact ⟨draft, final, before, none, listed, Outcome.pure_eq_ok.mp built⟩

theorem reachable_ofDeclaration {declaration : WorldDeclaration} {settings : Settings}
    (accepted : ofDeclaration declaration settings = .ok world) : world.Reachable := by
  obtain ⟨draft, final, reached, -, listed, built⟩ := registerAll_of_ofDeclaration accepted
  exact ⟨final, reached.registerAll listed, built⟩

/-- Each table of a world comes from a declaration, prepared under a registry that can be reached. -/
theorem Reachable.prepared (reachable : world.Reachable) (member : table ∈ world.tables) :
    ∃ draft : Draft, draft.registry.Reachable ∧
      ∃ declaration, draft.prepare declaration = .ok table := by
  obtain ⟨draft, reached, rfl⟩ := reachable
  have sound := reached.sound
  exact ⟨draft, sound.registry, sound.tables table member⟩

theorem Reachable.layout_sound (reachable : world.Reachable) (member : table ∈ world.tables) :
    table.layout.Sound := by
  obtain ⟨draft, registry, declaration, prepared⟩ := reachable.prepared member
  exact Draft.sound_of_prepare registry prepared

theorem Reachable.length_word (reachable : world.Reachable) (member : table ∈ world.tables) :
    table.id.word.length = 32 := by
  obtain ⟨draft, registry, declaration, prepared⟩ := reachable.prepared member
  exact Draft.length_word_of_prepare prepared

end World

end PackedTables
