import PackedTables.Proofs.Settings.Naming
import PackedTables.Proofs.Settings.Saving
import PackedTables.Proofs.Settings.Spelling
import PackedTables.World.TableId

/-!
# The namespace in the environment

The environment is laid after all files.  Its variable for the namespace of the world does what a
last file does that sets the same namespace: whatever stood in its place, the world is a table with
this namespace, and nothing else is touched.  The namespace is the name in its spelling, which is the
name itself unless it is a word for a value.
-/

namespace PackedTables

namespace Sources

/-- The text of a file that was asked for, if one was; none when it is missing. -/
def askedTexts? : AskedFile → Option (List String)
  | .none => some []
  | .missing => none
  | .text text => some [text]

/-- The texts of all files as they are laid; none when a file that was asked for is missing. -/
def files? (sources : Sources) : Option (List String) :=
  (askedTexts? sources.askedFile).map
    ([sources.plainFile, sources.hiddenFile, sources.folderFile, sources.userFile].filterMap id ++ ·)

/-- Sources of the same files as others, but that the last file sets the namespace of the world. -/
inductive LastNames (name : String) (before after : Sources) : Prop
  /-- The members of the last file are those from before, with the namespace set among them. -/
  | changed {stack : List String} {text renamed : String} {members others : Tree.Members}
      (files : before.files? = some (stack ++ [text]))
      (files' : after.files? = some (stack ++ [renamed]))
      (read : Toml.parse? text = some members) (read' : Toml.parse? renamed = some others)
      (sets : Tree.SetsNamespace name members others)
  /-- A last file that sets the namespace, and says nothing else, comes after the others. -/
  | added {stack : List String} {text : String} {members : Tree.Members}
      (files : before.files? = some stack) (files' : after.files? = some (stack ++ [text]))
      (read : Toml.parse? text = some members) (sets : Tree.SetsNamespace name [] members)

end Sources

namespace Settings

variable {name : String} {leaf : Tree} {root members renamed : Tree.Members}
  {sources before after : Sources} {stack texts : List String} {settings : Settings}

/-! ## Loading -/

/-- The settings that the tree of all sources is taken for. -/
def accept (tree : Tree) : Except LoadFault Settings :=
  match ofTree? tree with
  | none => .error .unfitValue
  | some settings => settings.check.mapError .refused

theorem load_eq_bind (sources : Sources) : load sources = treeOf sources >>= accept := rfl

theorem treeOf_eq_of_files (files : sources.files? = some texts) :
    treeOf sources = texts.foldlM overlayText (.table []) >>= fun tree =>
      overlayMembers tree (Environment.members sources.environment) := by
  obtain ⟨asked, askedTexts, rfl⟩ := Option.map_eq_some_iff.mp files
  unfold treeOf
  cases shape : sources.askedFile with
  | none =>
      rw [shape] at askedTexts
      obtain rfl := Option.some.inj askedTexts
      rw [List.append_nil]
      rfl
  | missing =>
      rw [shape] at askedTexts
      cases askedTexts
  | text text =>
      rw [shape] at askedTexts
      obtain rfl := Option.some.inj askedTexts
      rw [List.foldlM_append, bind_assoc]
      refine bind_congr fun tree => ?_
      simp only [List.foldlM_cons, List.foldlM_nil, bind_pure]
      rfl

theorem overlayMembers_eq_ok {tree : Tree} (laid : (Tree.table root).overlay? members = some tree) :
    overlayMembers (.table root) members = .ok tree := by
  rw [overlayMembers, laid]

theorem overlayMembers_eq_error (refused : (Tree.table root).overlay? members = none) :
    overlayMembers (.table root) members = .error .itemOutOfReach := by
  rw [overlayMembers, refused]

theorem overlayText_eq {text : String} (read : Toml.parse? text = some members) (tree : Tree) :
    overlayText tree text = overlayMembers tree members := by
  rw [overlayText, read]

/-- The tree of all files is a table. -/
theorem table_of_files {tree : Tree} (run : texts.foldlM overlayText (.table []) = .ok tree) :
    ∃ root, tree = .table root := by
  refine Outcome.foldlM_keeps (motive := fun tree => ∃ root, tree = .table root) ?_ ⟨[], rfl⟩ run
  rintro - text next ⟨root, rfl⟩ laid
  unfold overlayText overlayMembers at laid
  split at laid
  · split at laid
    · rename_i reached
      obtain rfl := Except.ok.inj laid
      exact Tree.overlay?_table reached
    · cases laid
  · cases laid

theorem accept_eq_ok {tree : Tree} :
    accept tree = .ok settings ↔ ofTree? tree = some settings ∧ settings.flaw? = none := by
  unfold accept
  cases ofTree? tree with
  | none => simp
  | some read =>
      rw [Outcome.mapError_eq_ok, check_eq_ok_iff, Option.some.injEq]
      constructor
      · rintro ⟨sound, rfl⟩
        exact ⟨rfl, sound⟩
      · rintro ⟨rfl, sound⟩
        exact ⟨sound, rfl⟩

/-- Over the same table, the variable does what members do that set its spelling. -/
theorem accept_eq_of_renames (valid : SchemaRules.checkNamespace {} name = .ok ())
    (renames : Tree.Renames (Environment.spelling name) members renamed) (root : Tree.Members) :
    (overlayMembers (.table root) members >>= fun tree =>
        overlayMembers tree [("world.namespace", Environment.valueOf name)] >>= accept) =
      overlayMembers (.table root) renamed >>= accept := by
  rcases renames root with ⟨refused, refused'⟩ | ⟨laid, relaid, reached, reached', beside, has⟩
  · rw [overlayMembers_eq_error refused, overlayMembers_eq_error refused', Outcome.error_bind,
      Outcome.error_bind]
  · obtain ⟨named, reachedName, besideName, hasName⟩ :=
      Tree.overlay?_namespace (Environment.isLeaf_valueOf name) laid
    rw [overlayMembers_eq_ok reached, overlayMembers_eq_ok reached', Outcome.ok_bind,
      Outcome.ok_bind, overlayMembers_eq_ok reachedName, Outcome.ok_bind, accept, accept,
      ofTree?_eq_of_beside (besideName.trans beside) hasName (Environment.text?_valueOf valid) has
        rfl]

/-- The namespace that the variable sets is the one that is loaded. -/
theorem worldNamespace_of_load (valid : SchemaRules.checkNamespace {} name = .ok ())
    (only : Environment.NamesOnly name sources.environment) (files : sources.files? = some texts)
    (loaded : load sources = .ok settings) :
    settings.worldNamespace = Environment.spelling name := by
  rw [load_eq_bind, treeOf_eq_of_files files, only.members_eq, bind_assoc] at loaded
  obtain ⟨tree, run, loaded⟩ := Outcome.bind_eq_ok.mp loaded
  obtain ⟨root, rfl⟩ := table_of_files run
  obtain ⟨named, reached, -, has⟩ :=
    Tree.overlay?_namespace (Environment.isLeaf_valueOf name) root
  rw [overlayMembers_eq_ok reached, Outcome.ok_bind] at loaded
  exact worldNamespace_of_ofTree? has (Environment.text?_valueOf valid) (accept_eq_ok.mp loaded).1

/-- After the same files, the variable and a file that sets its spelling load the same settings. -/
theorem load_eq_of_renames (valid : SchemaRules.checkNamespace {} name = .ok ())
    (only : Environment.NamesOnly name before.environment)
    (silent : ∀ entry ∈ after.environment, Environment.pathText? entry.1 = none)
    (treeBefore : treeOf before = stack.foldlM overlayText (.table []) >>= fun tree =>
      overlayMembers tree members >>= fun tree =>
        overlayMembers tree (Environment.members before.environment))
    (treeAfter : treeOf after = stack.foldlM overlayText (.table []) >>= fun tree =>
      overlayMembers tree renamed >>= fun tree =>
        overlayMembers tree (Environment.members after.environment))
    (renames : Tree.Renames (Environment.spelling name) members renamed) :
    load before = load after := by
  rw [load_eq_bind, load_eq_bind, treeBefore, treeAfter, only.members_eq,
    members_of_silent silent, bind_assoc, bind_assoc]
  cases run : stack.foldlM overlayText (.table []) with
  | error fault => rw [Outcome.error_bind, Outcome.error_bind]
  | ok tree =>
      obtain ⟨root, rfl⟩ := table_of_files run
      rw [Outcome.ok_bind, Outcome.ok_bind, bind_assoc, bind_assoc]
      exact accept_eq_of_renames valid renames root

theorem treeOf_eq_of_last {text : String} (files : sources.files? = some (stack ++ [text]))
    (read : Toml.parse? text = some members) :
    treeOf sources = stack.foldlM overlayText (.table []) >>= fun tree =>
      overlayMembers tree members >>= fun tree =>
        overlayMembers tree (Environment.members sources.environment) := by
  rw [treeOf_eq_of_files files, List.foldlM_append, bind_assoc]
  simp only [List.foldlM_cons, List.foldlM_nil, bind_pure, overlayText_eq read]

theorem load_eq_of_lastNames (valid : SchemaRules.checkNamespace {} name = .ok ())
    (only : Environment.NamesOnly name before.environment)
    (silent : ∀ entry ∈ after.environment, Environment.pathText? entry.1 = none)
    (files : Sources.LastNames (Environment.spelling name) before after) :
    load before = load after := by
  cases files with
  | changed files files' read read' sets =>
      exact load_eq_of_renames valid only silent (treeOf_eq_of_last files read)
        (treeOf_eq_of_last files' read') sets.renames
  | added files files' read sets =>
      exact load_eq_of_renames valid only silent (treeOf_eq_of_files files)
        (treeOf_eq_of_last files' read) sets.renames

/-! ## Files that set the namespace -/

theorem setsNamespace_tables (settings : Settings) (name : String) :
    Tree.SetsNamespace name (settings.tables.map Toml.tableOf)
      ({ settings with worldNamespace := name }.tables.map Toml.tableOf) := by
  have validation : Tree.heading "validation" ≠ "world" := by decide
  have codec : Tree.heading "codec" ≠ "world" := by decide
  have elsewhere : ∀ member ∈ settings.tables.tail.map Toml.tableOf,
      Tree.heading member.1 ≠ "world" := by
    simp [tables, Toml.tableOf, validation, codec]
  exact Tree.setsNamespace_cons name _ elsewhere

/-- Settings that are saved with another namespace, as the last file. -/
theorem lastNames_saved (small : ∀ value ∈ settings.numbers, value ≤ Numeral.maxInt)
    (files : before.files? = some (stack ++ [settings.text]))
    (files' : after.files? = some (stack ++ [{ settings with worldNamespace := name }.text])) :
    Sources.LastNames name before after :=
  .changed files files' (parse?_text small) (parse?_text small) (setsNamespace_tables settings name)

/-- The text of a file that sets the namespace only. -/
def namespaceText (name : String) : String :=
  String.ofList (worldText { worldNamespace := name })

theorem parse?_namespaceText (name : String) :
    Toml.parse? (namespaceText name) =
      some ([("world", [("namespace", .text name)])].map Toml.tableOf) := by
  have world : Toml.Reads (worldText { worldNamespace := name }) _ :=
    (Toml.reads_header (show Toml.isBareName "world" = true by decide)).entry
      (show Toml.isBareName "namespace" = true by decide) (Toml.spells_quote name)
  have moments : "world" ≠ Toml.momentName ∧ Toml.momentName ≠ "namespace" := by decide
  rw [namespaceText, world.parse?_eq rfl]
  change Toml.documentMembers? ([("world", [("namespace", Tree.text name)])].map Toml.sectionOf) = _
  exact Toml.documentMembers?_sectionOf (by simp) (by simp) (by simpa using moments)

/-- One more file that is asked for, and sets the namespace only. -/
theorem lastNames_asked (unasked : before.askedFile = .none)
    (environment : List (String × String)) (name : String) :
    Sources.LastNames name before
      { before with askedFile := .text (namespaceText name), environment } := by
  have files : before.files? = some ([before.plainFile, before.hiddenFile, before.folderFile,
      before.userFile].filterMap id) := by
    rw [Sources.files?, unasked]
    exact congrArg some (List.append_nil _)
  exact .added files rfl (parse?_namespaceText name) (Tree.setsNamespace_nil name)

theorem overlayText_namespaceText (name : String) :
    overlayText (.table []) (namespaceText name) =
      .ok (.table ([("world", [("namespace", .text name)])].map Toml.tableOf)) := by
  have laid : (Tree.table []).overlay?
      ([("world", [("namespace", Tree.text name)])].map Toml.tableOf) =
        some (.table ([] ++ [("world", [("namespace", Tree.text name)])].map Toml.tableOf)) := by
    refine Tree.overlay?_flat (by simp) ?_ ?_
    · simpa using Tree.IsStep.mk (by decide) (by decide)
    · have lower : lowerCase "namespace" = "namespace" := by decide
      simpa using Tree.Flat.mk (by simp) (by simp [lower]) (by simp [Tree.IsLeaf])
  rw [overlayText_eq (parse?_namespaceText name)]
  exact overlayMembers_eq_ok laid

/-- A file that sets the namespace only loads standard settings with this namespace. -/
theorem load_namespaceText (name : String) :
    load { askedFile := .text (namespaceText name) } = .ok { worldNamespace := name } := by
  have read : ofTree? (.table ([("world", [("namespace", .text name)])].map Toml.tableOf)) =
      some { worldNamespace := name } := rfl
  have only : { askedFile := .text (namespaceText name) } ∈ Sources.only (namespaceText name) [] := by
    simp [Sources.only]
  rw [load, treeOf_only (overlayText_namespaceText name) (by simp) only, Outcome.ok_bind, read]
  rfl

/-! ## The environment and the last file -/

/--
A name that is valid for the standard rules, set as the namespace by the environment and with no
other setting there, does what the last file does when it sets the spelling of the name: the same
settings are loaded, or the same fault is found.  Settings that are loaded have the spelling for
their namespace.  That is the name as it stands, unless it is a word for a truth value, for infinity
or for no number in another case than the one that is written.
-/
theorem load_namespace (valid : SchemaRules.checkNamespace {} name = .ok ())
    (only : Environment.NamesOnly name before.environment)
    (silent : ∀ entry ∈ after.environment, Environment.pathText? entry.1 = none)
    (files : Sources.LastNames (Environment.spelling name) before after) :
    load before = load after ∧
      (∀ settings, load before = .ok settings →
        settings.worldNamespace = Environment.spelling name) ∧
      (Environment.spelling name = name ↔
        lowerCase name ∉ Environment.valueWords ∨ name ∈ ["true", "false", "inf", "NaN"]) := by
  refine ⟨load_eq_of_lastNames valid only silent files, fun settings loaded => ?_,
    Environment.spelling_eq_self_iff⟩
  obtain ⟨texts, listed⟩ : ∃ texts, before.files? = some texts := by
    cases files with
    | changed files => exact ⟨_, files⟩
    | added files => exact ⟨_, files⟩
  exact worldNamespace_of_load valid only listed loaded

/-! ### A word for infinity -/

def tidal : Settings where
  worldNamespace := "harbor"
  schema := { reservedNames := ["owner"], maxDynamicFields := 2 }
  codec := { strictBool := false }

/-- Two files, the last one of saved settings, and an environment that names the world. -/
def flood : Sources where
  plainFile := some (namespaceText "old")
  askedFile := .text tidal.text
  environment := [("HOME", "/"), ("WORLD__WORLD__NAMESPACE", "Infinity")]

/-- The same files but for the namespace in the last one, and an environment that is silent. -/
def ebb : Sources where
  plainFile := some (namespaceText "old")
  askedFile := .text { tidal with worldNamespace := "inf" }.text
  environment := [("HOME", "/")]

theorem load_ebb : load ebb = .ok { tidal with worldNamespace := "inf" } := by
  have small : ∀ value ∈ { tidal with worldNamespace := "inf" }.numbers, value ≤ Numeral.maxInt := by
    decide
  have laid : (Tree.table ([("world", [("namespace", Tree.text "old")])].map Toml.tableOf)).overlay?
      ({ tidal with worldNamespace := "inf" }.tables.map Toml.tableOf) =
        some (.table ({ tidal with worldNamespace := "inf" }.tables.map Toml.tableOf)) := rfl
  have silent : Environment.members ebb.environment = [] := members_of_silent (by decide)
  have files : ebb.files? = some ([namespaceText "old"] ++
      [{ tidal with worldNamespace := "inf" }.text]) := rfl
  rw [load_eq_bind, treeOf_eq_of_last files (parse?_text small), List.foldlM_cons,
    overlayText_namespaceText, silent]
  simp only [Outcome.ok_bind, List.foldlM_nil, pure_bind, overlayMembers_eq_ok laid]
  exact accept_eq_ok.mpr ⟨ofTree?_tables { tidal with worldNamespace := "inf" }, by decide⟩

theorem load_namespace_infinity :
    SchemaRules.checkNamespace {} "Infinity" = .ok () ∧
      Environment.NamesOnly "Infinity" flood.environment ∧
      (∀ entry ∈ ebb.environment, Environment.pathText? entry.1 = none) ∧
      Sources.LastNames (Environment.spelling "Infinity") flood ebb ∧
      load flood = load ebb ∧ load flood = .ok { tidal with worldNamespace := "inf" } := by
  have spelled : Environment.spelling "Infinity" = "inf" := by decide
  have small : ∀ value ∈ tidal.numbers, value ≤ Numeral.maxInt := by decide
  have only : Environment.NamesOnly "Infinity" flood.environment := ⟨by decide, by decide⟩
  have files : Sources.LastNames (Environment.spelling "Infinity") flood ebb := by
    have before : flood.files? = some ([namespaceText "old"] ++ [tidal.text]) := rfl
    rw [spelled]
    exact lastNames_saved small before rfl
  obtain ⟨same, -, -⟩ := load_namespace (by decide) only (by decide) files
  exact ⟨by decide, only, by decide, files, same, same.trans load_ebb⟩

/-! ### A word for a truth value -/

/-- The environment does not keep a word for a truth value in capital letters, and a file does. -/
theorem load_respells :
    isIdentifier "TRUE" = true ∧ (Utf8.encode "TRUE").length ≤ TableId.namespaceWidth ∧
      Environment.NamesOnly "TRUE" [("WORLD__WORLD__NAMESPACE", "TRUE")] ∧
      Sources.LastNames "TRUE" { environment := [("WORLD__WORLD__NAMESPACE", "TRUE")] }
        { askedFile := .text (namespaceText "TRUE") } ∧
      load { environment := [("WORLD__WORLD__NAMESPACE", "TRUE")] } =
        .ok { worldNamespace := "true" } ∧
      load { askedFile := .text (namespaceText "TRUE") } = .ok { worldNamespace := "TRUE" } := by
  have only : Environment.NamesOnly "TRUE" [("WORLD__WORLD__NAMESPACE", "TRUE")] :=
    ⟨by decide, by decide⟩
  have unasked : ({ environment := [("WORLD__WORLD__NAMESPACE", "TRUE")] } : Sources).askedFile =
      .none := rfl
  have spelled : Environment.spelling "TRUE" = "true" := by decide
  refine ⟨by decide, by decide, only, lastNames_asked unasked [] "TRUE", ?_,
    load_namespaceText "TRUE"⟩
  rw [← load_namespaceText, ← spelled]
  exact load_eq_of_lastNames (by decide) only (by simp)
    (lastNames_asked unasked [] (Environment.spelling "TRUE"))

end Settings

end PackedTables
