import PackedTables.Proofs.Outcome
import PackedTables.Proofs.Toml.Document
import PackedTables.Proofs.Toml.Value
import PackedTables.Settings.Load
import PackedTables.Settings.Save

/-!
# Settings that are kept

The saved text of settings is read as a document of three tables, in which every setting stands
under its own name.  Loaded as the only source, it gives back these settings, or the flaw that they
have.
-/

namespace PackedTables

namespace Toml

/-! ## Lines -/

/-- A name of letters, digits, underscores and hyphens, which is no date. -/
def isBareName (name : String) : Bool :=
  !name.toList.isEmpty && name.toList.all Reading.isBare && !Mode.isDate name.toList

/-- A piece of text that is read as these sections, the last one and its last entry first. -/
def Reads (chars : List Char) (parts : List Section) : Prop :=
  ∃ tokens, Cut ' ' chars tokens ∧
    ∀ sections, Reading.run ⟨sections, .line⟩ tokens = some ⟨parts ++ sections, .line⟩

variable {name : String} {chars others value : List Char} {parts more : List Section}

theorem bare_of_isBareName (bare : isBareName name = true) :
    name.toList ≠ [] ∧ (∀ c ∈ name.toList, Reading.isBare c = true) ∧
      Mode.isDate name.toList = false := by
  simp only [isBareName, Bool.and_eq_true, Bool.not_eq_true', List.isEmpty_eq_false_iff,
    List.all_eq_true] at bare
  exact ⟨bare.1.1, bare.1.2, bare.2⟩

theorem isWord_of_isBare {c : Char} (bare : Reading.isBare c = true) : Mode.isWord c = true := by
  simp only [Reading.isBare, Bool.or_eq_true, beq_iff_eq] at bare
  simp only [Mode.isWord, Bool.or_eq_true]
  rcases bare with (letter | rfl) | rfl
  · exact .inl letter
  · exact .inr rfl
  · exact .inr rfl

theorem wordParts?_of_isBare {seen : List Char} (some_seen : seen ≠ [] ∨ chars ≠ [])
    (each : ∀ c ∈ chars, Reading.isBare c = true) :
    Reading.wordParts? seen chars = some [.name (String.ofList (seen.reverse ++ chars))] := by
  induction chars generalizing seen with
  | nil =>
      have nonempty : seen.isEmpty = false := by simpa using some_seen
      rw [Reading.wordParts?, nonempty, if_neg (by decide), List.append_nil]
  | cons c rest ih =>
      obtain ⟨here, there⟩ := List.forall_mem_cons.mp each
      rw [Reading.wordParts?, if_pos here, ih (.inl (List.cons_ne_nil _ _)) there,
        List.reverse_cons, List.append_assoc]
      rfl

theorem tokenParts?_name (bare : isBareName name = true) :
    Reading.tokenParts? (.word name.toList) = some [.name name] := by
  obtain ⟨nonempty, each, -⟩ := bare_of_isBareName bare
  change Reading.wordParts? [] name.toList = _
  rw [wordParts?_of_isBare (.inr nonempty) each]
  simp

theorem leads_name (bare : isBareName name = true) (previous : Char) :
    Mode.Leads (.between previous) name.toList (.word name.toList.reverse) := by
  obtain ⟨nonempty, each, -⟩ := bare_of_isBareName bare
  exact Mode.leads_of_isWord nonempty (fun c member => isWord_of_isBare (each c member)) previous

theorem not_mem_name (bare : isBareName name = true) : '\r' ∉ name.toList := by
  obtain ⟨-, each, -⟩ := bare_of_isBareName bare
  exact Mode.not_mem_of_isWord fun c member => isWord_of_isBare (each c member)

theorem cut_header (bare : isBareName name = true) : Cut ' ' (Settings.writeHeader name)
    [.openBracket false, .word name.toList, .closeBracket false, .newline] := by
  have ended (seen : List Char) : Mode.run (.word seen) [']', '\n'] =
      some ([.word seen.reverse, .closeBracket false, .newline], .between '\n') := rfl
  have reached : Mode.run (.between '[') (name.toList ++ [']', '\n']) =
      some ([.word name.toList, .closeBracket false, .newline], .between '\n') := by
    rw [(leads_name bare '[').run_append, ended, List.reverse_reverse]
  refine .cons (by decide) rfl (.of_run (fun member => ?_) reached (by decide) (by decide))
  rcases List.mem_append.mp member with inName | mark
  · exact not_mem_name bare inName
  · exact absurd mark (by decide)

theorem reads_header (bare : isBareName name = true) :
    Reads (Settings.writeHeader name) [⟨.table [name], []⟩] := by
  refine ⟨_, cut_header bare, fun sections => ?_⟩
  have named : Reading.step ⟨sections, .header false []⟩ (.word name.toList) =
      some ⟨sections, .header false [.name name]⟩ := by
    change (Reading.tokenParts? (.word name.toList)).map _ = _
    rw [tokenParts?_name bare]
    rfl
  rw [run_cons_of_step rfl, run_cons_of_step named]
  rfl

theorem cut_name (bare : isBareName name = true) :
    Cut ' ' (name.toList ++ " = ".toList) [.word name.toList, .equals] := by
  obtain ⟨-, -, undated⟩ := bare_of_isBareName bare
  have gap : Mode.step (.word name.toList.reverse) ' ' =
      some ([.word name.toList], .between ' ') := by
    change Mode.word? _ _ = _
    rw [Mode.word?, List.reverse_reverse, undated]
    rfl
  have reached : Mode.run (.between ' ') (name.toList ++ " = ".toList) =
      some ([.word name.toList, .equals], .between ' ') := by
    rw [(leads_name bare ' ').run_append]
    change Mode.run _ (' ' :: ['=', ' ']) = _
    rw [Mode.run_cons_of_step gap]
    rfl
  refine .of_run (fun member => ?_) reached (by decide) (by decide)
  rcases List.mem_append.mp member with inName | mark
  · exact not_mem_name bare inName
  · exact absurd mark (by decide)

namespace Reads

/-- One more entry in the last section. -/
theorem entry {header : Header} {entries : List Entry} {node : Node}
    (reads : Reads chars (⟨header, entries⟩ :: parts)) (bare : isBareName name = true)
    (spells : Spells value node) :
    Reads (chars ++ Settings.writeEntry name value)
      (⟨header, ⟨[name], node⟩ :: entries⟩ :: parts) := by
  obtain ⟨tokens, cut, reached⟩ := reads
  obtain ⟨valueTokens, valueCut, valueReached⟩ := spells
  refine ⟨tokens ++ ([.word name.toList, .equals] ++ (valueTokens ++ [.newline])), ?_,
    fun sections => ?_⟩
  · have whole := cut.append ((cut_name bare).append valueCut)
    rw [Settings.writeEntry, List.append_assoc _ value]
    exact whole
  · have named (sections : List Section) : Reading.step ⟨sections, .line⟩ (.word name.toList) =
        some ⟨sections, .name [.name name]⟩ := by
      change ((Reading.tokenParts? (.word name.toList)).map State.name).map _ = _
      rw [tokenParts?_name bare]
      rfl
    have equals (sections : List Section) : Reading.step ⟨sections, .name [.name name]⟩ .equals =
        some ⟨sections, .value [.entry [name]]⟩ := rfl
    rw [Reading.run_append, reached, Option.bind_some]
    change Reading.run _ (.word name.toList :: .equals :: (valueTokens ++ [.newline])) = _
    rw [run_cons_of_step (named _), run_cons_of_step (equals _), Reading.run_append, valueReached]
    rfl

/-- Sections with an empty line between them. -/
theorem append (first : Reads chars parts) (second : Reads others more) :
    Reads (chars ++ '\n' :: others) (more ++ parts) := by
  obtain ⟨tokens, cut, reached⟩ := first
  obtain ⟨later, laterCut, laterReached⟩ := second
  have blank : Cut ' ' ['\n'] [.newline] := .of_run (by decide) rfl (by decide) (by decide)
  have rest : Cut ' ' ('\n' :: others) (.newline :: later) := blank.append laterCut
  refine ⟨tokens ++ (.newline :: later), cut.append rest, fun sections => ?_⟩
  rw [Reading.run_append, reached, Option.bind_some]
  change Reading.run ⟨parts ++ sections, .line⟩ later = _
  rw [laterReached, List.append_assoc]

theorem parse?_eq (reads : Reads chars parts) (unmarked : withoutMark chars = chars) :
    parse? (String.ofList chars) = documentMembers? (Reading.ordered parts) := by
  obtain ⟨tokens, cut, reached⟩ := reads
  have read : sections? (tokens ++ [.newline]) = some (Reading.ordered parts) := by
    rw [sections?, Reading.run_append, reached, List.append_nil]
    rfl
  rw [parse?, String.toList_ofList, unmarked, cut.tokens?_eq]
  change ((sections? (tokens ++ [.newline])).bind documentMembers?) = _
  rw [read]
  rfl

end Reads

end Toml

namespace Settings

open Toml

variable {settings : Settings}

/-! ## The saved document -/

/-- The tables that are written, each setting under its own name. -/
def tables (settings : Settings) : List (String × Tree.Members) :=
  [("world", [("namespace", .text settings.worldNamespace)]),
   ("validation", [("reserved_names", .list (settings.schema.reservedNames.map .text)),
     ("identifier_names", .bool settings.schema.identifierNames),
     ("max_key_fields", .int settings.schema.maxKeyFields),
     ("max_value_fields", .int settings.schema.maxValueFields),
     ("max_dynamic_fields", .int settings.schema.maxDynamicFields),
     ("max_static_length", .int settings.schema.maxStaticLength)]),
   ("codec", [("max_dynamic_length", .int settings.codec.maxDynamicLength),
     ("strict_bool", .bool settings.codec.strictBool)])]

theorem spells_writeBool (value : Bool) : Spells (writeBool value) (.leaf (.bool value)) := by
  cases value with
  | true => exact spells_true
  | false => exact spells_false

theorem spells_texts (texts : List String) :
    Spells (quoteList texts) (Node.ofTree (.list (texts.map .text))) := by
  have spelled := spells_quoteList texts
  rw [Node.ofTree, List.map_map]
  exact spelled

theorem reads_text (small : ∀ value ∈ settings.numbers, value ≤ Numeral.maxInt) :
    Reads (worldText settings ++ '\n' :: schemaText settings.schema ++
      '\n' :: codecText settings.codec) (settings.tables.map fun part =>
        ⟨.table [part.1], (part.2.map entryOf).reverse⟩).reverse := by
  simp only [numbers, List.forall_mem_cons] at small
  obtain ⟨keyFields, valueFields, dynamicFields, staticLength, dynamicLength, -⟩ := small
  have world : Reads (worldText settings) _ :=
    (reads_header (show isBareName "world" = true by decide)).entry
      (show isBareName "namespace" = true by decide) (spells_quote _)
  have schema : Reads (schemaText settings.schema) _ :=
    ((((((reads_header (show isBareName "validation" = true by decide)).entry
      (show isBareName "reserved_names" = true by decide) (spells_texts _)).entry
      (show isBareName "identifier_names" = true by decide) (spells_writeBool _)).entry
      (show isBareName "max_key_fields" = true by decide) (spells_number keyFields)).entry
      (show isBareName "max_value_fields" = true by decide) (spells_number valueFields)).entry
      (show isBareName "max_dynamic_fields" = true by decide) (spells_number dynamicFields)).entry
      (show isBareName "max_static_length" = true by decide) (spells_number staticLength)
  have codec : Reads (codecText settings.codec) _ :=
    ((reads_header (show isBareName "codec" = true by decide)).entry
      (show isBareName "max_dynamic_length" = true by decide) (spells_number dynamicLength)).entry
      (show isBareName "strict_bool" = true by decide) (spells_writeBool _)
  exact (world.append schema).append codec

theorem ordered_reverse (parts : List (String × Tree.Members)) :
    Reading.ordered (parts.map fun part =>
      ⟨.table [part.1], (part.2.map entryOf).reverse⟩).reverse = parts.map sectionOf := by
  rw [Reading.ordered, List.map_reverse, List.reverse_reverse, List.map_map]
  refine List.map_congr_left fun part _ => ?_
  exact congrArg (Section.mk _) (List.reverse_reverse _)

/-- The names of the tables and of the settings in them. -/
def names : List (String × List String) :=
  [("world", ["namespace"]),
   ("validation", ["reserved_names", "identifier_names", "max_key_fields", "max_value_fields",
     "max_dynamic_fields", "max_static_length"]),
   ("codec", ["max_dynamic_length", "strict_bool"])]

theorem mem_names {part : String × Tree.Members} (listed : part ∈ settings.tables) :
    (part.1, part.2.map (·.1)) ∈ names :=
  List.mem_map_of_mem (f := fun part => (part.1, part.2.map (·.1))) listed

theorem distinct_tables (settings : Settings) : (settings.tables.map (·.1)).Nodup :=
  show (names.map (·.1)).Nodup by decide

theorem distinct_of_mem_tables {part : String × Tree.Members} (listed : part ∈ settings.tables) :
    (part.2.map (·.1)).Nodup :=
  (show ∀ entry ∈ names, entry.2.Nodup by decide) _ (mem_names listed)

theorem parse?_text (small : ∀ value ∈ settings.numbers, value ≤ Numeral.maxInt) :
    Toml.parse? settings.text = some (settings.tables.map tableOf) := by
  have moments : ∀ entry ∈ names, entry.1 ≠ momentName ∧ momentName ∉ entry.2 := by decide
  rw [text, (reads_text small).parse?_eq rfl, ordered_reverse]
  exact documentMembers?_sectionOf settings.distinct_tables (fun _ => distinct_of_mem_tables)
    fun part listed => moments _ (mem_names listed)

/-! ## Loading -/

theorem flat_tables (settings : Settings) : ∀ part ∈ settings.tables, Tree.Flat part.2 := by
  have lower : ∀ entry ∈ names, ∀ name ∈ entry.2, lowerCase name = name := by decide
  have leaves : ∀ part ∈ settings.tables, ∀ member ∈ part.2, member.2.IsLeaf := by
    simp only [tables, List.forall_mem_cons, Tree.IsLeaf, List.not_mem_nil, false_imp_iff,
      implies_true, and_true]
  exact fun part listed =>
    ⟨distinct_of_mem_tables listed, lower _ (mem_names listed), leaves part listed⟩

theorem overlayText_text (small : ∀ value ∈ settings.numbers, value ≤ Numeral.maxInt) :
    overlayText (.table []) settings.text = .ok (.table (settings.tables.map tableOf)) := by
  have steps : ∀ entry ∈ names, lowerCase entry.1 = entry.1 ∧
      Tree.path? entry.1 = some [.member entry.1] := by decide
  have laid : (Tree.table []).overlay? (settings.tables.map tableOf) =
      some (.table ([] ++ settings.tables.map tableOf)) := by
    refine Tree.overlay?_flat settings.distinct_tables (fun part listed => ?_) settings.flat_tables
    obtain ⟨lower, path⟩ := steps _ (mem_names listed)
    exact ⟨lower, path⟩
  rw [overlayText, parse?_text small]
  change overlayMembers _ _ = _
  rw [overlayMembers, laid]
  rfl

theorem natural?_int (value : Nat) : Tree.natural? (.int value) = some value := by
  simp [Tree.natural?]

theorem texts?_list (texts : List String) :
    Tree.texts? (.list (texts.map .text)) = some texts := by
  change (texts.map Tree.text).mapM Tree.text? = some texts
  induction texts with
  | nil => rfl
  | cons text rest ih => rw [List.map_cons, List.mapM_cons, ih]; rfl

theorem ofTree?_tables (settings : Settings) :
    ofTree? (.table (settings.tables.map tableOf)) = some settings := by
  simp [tables, tableOf, ofTree?, Tree.parts?, Tree.member?, Tree.part, worldOfTree?,
    SchemaRules.ofTree?, CodecRules.ofTree?, texts?_list, Tree.bool?, Tree.text?, natural?_int]

theorem members_of_silent {environment : List (String × String)}
    (silent : ∀ entry ∈ environment, Environment.pathText? entry.1 = none) :
    Environment.members environment = [] := by
  unfold Environment.members
  induction environment with
  | nil => rfl
  | cons entry rest ih =>
      obtain ⟨here, there⟩ := List.forall_mem_cons.mp silent
      rw [List.foldl_cons, here]
      exact ih there

end Settings

/-- The sources among which a text is the only file, in any of the five places. -/
def Sources.only (text : String) (environment : List (String × String)) : List Sources :=
  [{ plainFile := some text, environment }, { hiddenFile := some text, environment },
    { folderFile := some text, environment }, { userFile := some text, environment },
    { askedFile := .text text, environment }]

namespace Settings

theorem treeOf_only {text : String} {tree : Tree} {environment : List (String × String)}
    {sources : Sources} (laid : overlayText (.table []) text = .ok tree)
    (silent : ∀ entry ∈ environment, Environment.pathText? entry.1 = none)
    (only : sources ∈ Sources.only text environment) : treeOf sources = .ok tree := by
  have silence (root : Tree) :
      overlayMembers root (Environment.members environment) = .ok root := by
    rw [members_of_silent silent]
    rfl
  have folded : [text].foldlM overlayText (.table []) = .ok tree := by
    rw [List.foldlM_cons, laid]
    rfl
  simp only [Sources.only, List.mem_cons, List.not_mem_nil, or_false] at only
  rcases only with rfl | rfl | rfl | rfl | rfl
  · exact Outcome.bind_eq_ok.mpr ⟨tree, folded, silence tree⟩
  · exact Outcome.bind_eq_ok.mpr ⟨tree, folded, silence tree⟩
  · exact Outcome.bind_eq_ok.mpr ⟨tree, folded, silence tree⟩
  · exact Outcome.bind_eq_ok.mpr ⟨tree, folded, silence tree⟩
  · exact Outcome.bind_eq_ok.mpr ⟨.table [], rfl, Outcome.bind_eq_ok.mpr ⟨tree, laid, silence tree⟩⟩

/--
Settings whose numbers are signed ones of sixty-four bits can be saved.  The saved text, loaded from
any place as the only source, gives back exactly these settings when they have no flaw, and is
refused for their flaw otherwise.
-/
theorem load_save (settings : Settings) (small : ∀ value ∈ settings.numbers, value ≤ Numeral.maxInt)
    (environment : List (String × String))
    (silent : ∀ entry ∈ environment, Environment.pathText? entry.1 = none) :
    ∃ text, settings.save? = some text ∧ ∀ sources ∈ Sources.only text environment,
      (settings.check = .ok settings → load sources = .ok settings) ∧
        ∀ fault, settings.check = .error fault → load sources = .error (.refused fault) := by
  have savable : settings.isSavable = true :=
    List.all_eq_true.mpr fun value listed => decide_eq_true (small value listed)
  refine ⟨settings.text, if_pos savable, fun sources only => ?_⟩
  have loaded : load sources = settings.check.mapError .refused := by
    rw [load, treeOf_only (overlayText_text small) silent only, Outcome.ok_bind, ofTree?_tables]
  rw [loaded]
  refine ⟨fun sound => ?_, fun fault refused => ?_⟩
  · rw [sound]
    rfl
  · rw [refused]
    rfl

/-- Settings of texts that are quoted in different forms. -/
def odd : Settings where
  worldNamespace := "a \"world\"\nof 'two' lines"
  schema := { reservedNames := ["", "it's", "C:\\", "\"\"\"'''\r", "\x00\t\n"] }

theorem load_save_odd :
    ∃ text, odd.save? = some text ∧
      load { userFile := some text, environment := [("HOME", "/root")] } = .ok odd := by
  obtain ⟨text, saved, loaded⟩ := load_save odd (by decide) [("HOME", "/root")] (by decide)
  exact ⟨text, saved, (loaded _ (by simp [Sources.only])).1 (by decide)⟩

end Settings

end PackedTables
