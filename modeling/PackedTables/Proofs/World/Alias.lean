import PackedTables.Proofs.Record.Unnamed
import PackedTables.Proofs.Schema.Growth
import PackedTables.Proofs.World.Draft
import PackedTables.World.Manifest

/-!
# Aliases

An alias has the type of its target under a name of its own.  A table that names one instead of the
other is checked and planned alike, has the same layout words and the same fingerprint, and stores
the same records.
-/

namespace PackedTables

/-! ## Alike outcomes -/

namespace Outcome

/-- Both succeed with values that are alike, or both fail with faults that differ at most in the
name of a type. -/
inductive Alike {α β : Type} (same : α → β → Prop) : Except Fault α → Except Fault β → Prop
  | ok {first : α} {second : β} : same first second → Alike same (.ok first) (.ok second)
  | error {fault other : Fault} : fault.unnamed = other.unnamed →
      Alike same (.error fault) (.error other)

namespace Alike

variable {α β γ δ : Type}

theorem refl (outcome : Except Fault α) : Alike (· = ·) outcome outcome := by
  cases outcome with
  | ok value => exact .ok rfl
  | error fault => exact .error rfl

theorem bind {same : α → β → Prop} {like : γ → δ → Prop} {first : Except Fault α}
    {second : Except Fault β} {next : α → Except Fault γ} {follow : β → Except Fault δ}
    (alike : Alike same first second)
    (each : ∀ value other, same value other → Alike like (next value) (follow other)) :
    Alike like (first >>= next) (second >>= follow) := by
  cases alike with
  | ok related => exact each _ _ related
  | error equal => exact .error equal

theorem mono {same like : α → β → Prop} {first : Except Fault α} {second : Except Fault β}
    (alike : Alike same first second) (weaker : ∀ value other, same value other → like value other) :
    Alike like first second := by
  cases alike with
  | ok related => exact .ok (weaker _ _ related)
  | error equal => exact .error equal

theorem of_ok {same : α → β → Prop} {first : α} {second : β}
    (alike : Alike same (.ok first) (.ok second)) : same first second := by
  cases alike with
  | ok related => exact related

theorem of_map_eq {change : α → β} {first second : Except Fault α}
    (equal : first.map change = second.map change) :
    Alike (fun value other => change value = change other) first second := by
  cases first with
  | ok value =>
      cases second with
      | ok other => exact .ok (Except.ok.inj equal)
      | error fault => cases equal
  | error fault =>
      cases second with
      | ok other => cases equal
      | error other => exact .error (congrArg Fault.unnamed (Except.error.inj equal))

theorem of_mapError_eq {first second : Except Fault α}
    (equal : first.mapError Fault.unnamed = second.mapError Fault.unnamed) :
    Alike (· = ·) first second := by
  cases first with
  | ok value =>
      cases second with
      | ok other => exact .ok (Except.ok.inj equal)
      | error fault => cases equal
  | error fault =>
      cases second with
      | ok other => cases equal
      | error other => exact .error (Except.error.inj equal)

end Alike

end Outcome

open Outcome (Alike)

/-! ## Layouts that differ in the names of types -/

/-- Layouts under which the same records are stored. -/
structure Layout.StoresAlike (first second : Layout) : Prop where
  unnamed : first.unnamed = second.unnamed
  fieldLayout : first.fieldLayout = second.fieldLayout
  keySchema : first.keySchema = second.keySchema
  valueSchema : first.valueSchema = second.valueSchema
  encode : ∀ (codec : CodecRules) row,
    Alike (· = ·) (codec.encode first row) (codec.encode second row)
  decode : ∀ (codec : CodecRules) record, codec.decode first record = codec.decode second record
  decodeField : ∀ (codec : CodecRules) record name,
    codec.decodeField first record name = codec.decodeField second record name

theorem Layout.storesAlike_of_unnamed {first second : Layout}
    (same : first.unnamed = second.unnamed) : first.StoresAlike second where
  unnamed := same
  fieldLayout := by rw [← first.fieldLayout_unnamed, same, second.fieldLayout_unnamed]
  keySchema := by rw [← first.keySchema_unnamed, same, second.keySchema_unnamed]
  valueSchema := by rw [← first.valueSchema_unnamed, same, second.valueSchema_unnamed]
  encode := fun codec row => .of_mapError_eq (by
    rw [← codec.encode_unnamed first, same, codec.encode_unnamed second])
  decode := fun codec record => by
    rw [← codec.decode_unnamed first, same, codec.decode_unnamed second]
  decodeField := fun codec record name => by
    rw [← codec.decodeField_unnamed first, same, codec.decodeField_unnamed second]

theorem Layout.alike_plan {first second : Schema} (same : first.unnamed = second.unnamed)
    (limits : SchemaRules) : Alike StoresAlike (plan limits first) (plan limits second) := by
  have planned : Alike (fun layout other => layout.unnamed = other.unnamed) (plan limits first)
      (plan limits second) :=
    .of_map_eq (by rw [← plan_unnamed limits first, same, plan_unnamed limits second])
  exact planned.mono fun _ _ => storesAlike_of_unnamed

/-! ## Declarations that name an alias -/

/-- A field declared with a type, or else with another name in place of that type. -/
def FieldDeclaration.Renames (target name : String) (declaration other : FieldDeclaration) : Prop :=
  other = declaration ∨ declaration.typeName = target ∧ other = { declaration with typeName := name }

/-- One type name is replaced by another in some of the fields. -/
structure TableDeclaration.Renames (target name : String) (declaration other : TableDeclaration) :
    Prop where
  named : other.name = declaration.name
  keyed : other.key = declaration.key
  offchain : other.offchain = declaration.offchain
  fields : List.Forall₂ (FieldDeclaration.Renames target name) declaration.fields other.fields

namespace Registry

/-- Two names have the same type, but for the name itself. -/
def Means (registry : Registry) (target name : String) : Prop :=
  ∃ type other, registry.resolve? target = some type ∧ registry.resolve? name = some other ∧
    type.unnamed = other.unnamed

/-- An alias means its target from its registration on. -/
theorem means_of_registerAlias {before next : Registry} (reachable : before.Reachable)
    {name target : String} (accepted : before.registerAlias name target = .ok next)
    (registrations : List Registration) : (next.attemptAll registrations).Means target name := by
  have keeps := keeps_attemptAll next registrations
  obtain ⟨free, type, found, rfl⟩ := registerAlias_eq_ok accepted
  have made := (reachable.sound.resolve? found).1.made
  have fresh : before.lookup? (FieldType.ofKind name type.kind).name = none :=
    lookup?_eq_none_of_resolve? free
  have added := (resolve?_add fresh name).trans (if_pos rfl)
  have grown := keeps_add (show before.resolve? (FieldType.ofKind name type.kind).name = none
    from free)
  exact ⟨type, .ofKind name type.kind, keeps _ _ (grown _ _ found), keeps _ _ added,
    (congrArg FieldType.unnamed made).trans rfl⟩

end Registry

namespace SchemaRules

variable {registry : Registry} {target name : String}

theorem checkField_renames (means : registry.Means target name) (rules : SchemaRules)
    (table : String) (seen : List String) {declaration other : FieldDeclaration}
    (renames : declaration.Renames target name other) :
    Alike (fun field again => field.unnamed = again.unnamed)
      (rules.checkField registry table seen declaration)
      (rules.checkField registry table seen other) := by
  rcases renames with rfl | ⟨rfl, rfl⟩
  · exact (Alike.refl _).mono fun _ _ same => congrArg Field.unnamed same
  · obtain ⟨type, again, resolved, found, same⟩ := means
    rw [checkField_eq_bind, checkField_eq_bind, resolved, found]
    cases rules.checkName declaration.name with
    | error fault => exact .error rfl
    | ok _ =>
        simp only [Outcome.ok_bind]
        split
        · exact .error rfl
        · split
          · exact .error rfl
          · exact .ok (congrArg (Field.mk declaration.name) same)

theorem checkFields_renames (means : registry.Means target name) (rules : SchemaRules)
    (table : String) {seen : List String} {declarations others : List FieldDeclaration}
    (renames : List.Forall₂ (FieldDeclaration.Renames target name) declarations others) :
    Alike (fun fields again => fields.map Field.unnamed = again.map Field.unnamed)
      (rules.checkFields registry table seen declarations)
      (rules.checkFields registry table seen others) := by
  induction renames generalizing seen with
  | nil => exact .ok rfl
  | @cons declaration other declarations others here there ih =>
      have names : other.name = declaration.name := by
        rcases here with rfl | ⟨-, rfl⟩ <;> rfl
      rw [checkFields_cons_eq, checkFields_cons_eq, names]
      refine (checkField_renames means rules table seen here).bind fun field again same => ?_
      refine ih.bind fun fields following alike => .ok ?_
      rw [List.map_cons, List.map_cons, same, alike]

theorem checkKey_unnamed (table : String) (fields : List Field) (seen names : List String) :
    (checkKey table (fields.map Field.unnamed) seen names).mapError Fault.unnamed =
      (checkKey table fields seen names).mapError Fault.unnamed := by
  induction names generalizing seen with
  | nil => rfl
  | cons name rest ih =>
      unfold checkKey
      rw [Schema.find?_unnamed]
      cases fields.find? fun field => field.name == name with
      | none => rfl
      | some field =>
          have fixed : field.unnamed.type.isFixed = field.type.isFixed := rfl
          simp only [Option.map_some, fixed]
          split
          · rfl
          · split
            · exact ih (name :: seen)
            · rfl

theorem validate_renames (means : registry.Means target name) (rules : SchemaRules)
    {declaration other : TableDeclaration} (renames : declaration.Renames target name other) :
    Alike (fun schema again => schema.unnamed = again.unnamed)
      (rules.validate registry declaration) (rules.validate registry other) := by
  obtain ⟨named, keyed, offchain, renamed⟩ := renames
  unfold validate
  rw [named, keyed, offchain]
  refine (Alike.refl (rules.checkName declaration.name)).bind fun _ _ _ => ?_
  refine (checkFields_renames means rules declaration.name renamed).bind fun fields again same => ?_
  have keys : Alike (· = ·) (checkKey declaration.name fields [] declaration.key)
      (checkKey declaration.name again [] declaration.key) :=
    .of_mapError_eq (by rw [← checkKey_unnamed, same, checkKey_unnamed])
  exact keys.bind fun _ _ _ => .ok (by rw [Schema.unnamed, Schema.unnamed, same])

end SchemaRules

/-! ## Tables -/

/-- Tables under one identifier that store alike. -/
structure Table.StoresAlike (first second : Table) : Prop where
  id : first.id = second.id
  layout : first.layout.StoresAlike second.layout
  fingerprint : first.manifest.fingerprint = second.manifest.fingerprint

theorem Table.fingerprint_eq {first second : Table} (id : first.id = second.id)
    (layout : first.layout.StoresAlike second.layout) :
    first.manifest.fingerprint = second.manifest.fingerprint := by
  change Fingerprint.ofParts first.fingerprintParts = Fingerprint.ofParts second.fingerprintParts
  rw [fingerprintParts, fingerprintParts, id, layout.fieldLayout, layout.keySchema,
    layout.valueSchema]

theorem Draft.prepare_renames {draft : Draft} {target name : String}
    (means : draft.registry.Means target name) {declaration other : TableDeclaration}
    (renames : declaration.Renames target name other) :
    Alike Table.StoresAlike (draft.prepare declaration) (draft.prepare other) := by
  unfold prepare
  refine (SchemaRules.validate_renames means draft.settings.schema renames).bind
    fun schema again same => ?_
  refine (Layout.alike_plan same draft.settings.schema).bind fun layout following alike => ?_
  have names : again.name = schema.name := (congrArg Schema.name same).symm
  have offchain : again.offchain = schema.offchain := (congrArg Schema.offchain same).symm
  rw [names, offchain]
  refine (Alike.refl (TableId.make draft.worldNamespace schema.name schema.offchain)).bind
    fun id again equal => ?_
  exact .ok ⟨equal, alike, Table.fingerprint_eq equal alike⟩

/-! ## A board under another name of its grid -/

namespace Brackets

def aliasDeclaration : TableDeclaration where
  name := "Board"
  fields := [⟨"place", "uint8"⟩, ⟨"grid", "Grid"⟩]
  key := ["place"]

end Brackets

namespace Registry

/--
From its registration on an alias stores like its target.  Whatever fields of a table name the one
in place of the other, the table is checked, planned and identified alike.  Its layout words and its
fingerprint are the same, it writes the same bytes, and reads the same cells.
-/
theorem alias_stores_alike {before next : Registry} (reachable : before.Reachable)
    {name target : String} (accepted : before.registerAlias name target = .ok next)
    (registrations : List Registration) {declaration other : TableDeclaration}
    (renames : declaration.Renames target name other) :
    (∀ rules : SchemaRules, Alike (fun schema again => schema.unnamed = again.unnamed)
        (rules.validate (next.attemptAll registrations) declaration)
        (rules.validate (next.attemptAll registrations) other)) ∧
      (∀ rules limits : SchemaRules, Alike Layout.StoresAlike
        (rules.validate (next.attemptAll registrations) declaration >>= Layout.plan limits)
        (rules.validate (next.attemptAll registrations) other >>= Layout.plan limits)) ∧
      ∀ draft : Draft, draft.registry = next.attemptAll registrations →
        Alike Table.StoresAlike (draft.prepare declaration) (draft.prepare other) := by
  have means := means_of_registerAlias reachable accepted registrations
  refine ⟨fun rules => ?_, fun rules limits => ?_, fun draft same => ?_⟩
  · exact SchemaRules.validate_renames means rules renames
  · refine (SchemaRules.validate_renames means rules renames).bind fun schema again same => ?_
    exact Layout.alike_plan same limits
  · exact Draft.prepare_renames (same ▸ means) renames

/-- The board is stored alike when its grid goes by another name. -/
theorem alias_stores_alike_board :
    ∃ next table other, standard.registerAlias "Grid" "uint8[3]" = .ok next ∧
      (Draft.new next).prepare Brackets.declaration = .ok table ∧
      (Draft.new next).prepare Brackets.aliasDeclaration = .ok other ∧
      table.layout ≠ other.layout ∧ table.StoresAlike other := by
  have accepted : standard.registerAlias "Grid" "uint8[3]" =
      .ok (standard.add (.ofKind "Grid" (.array (.uint 8) (some 3)))) := rfl
  have renames : Brackets.declaration.Renames "uint8[3]" "Grid" Brackets.aliasDeclaration :=
    ⟨rfl, rfl, rfl, .cons (.inl rfl) (.cons (.inr ⟨rfl, rfl⟩) .nil)⟩
  obtain ⟨-, -, prepared⟩ := alias_stores_alike .standard accepted [] renames
  exact ⟨_, _, _, accepted, rfl, rfl, by decide, (prepared (Draft.new _) rfl).of_ok⟩

end Registry

end PackedTables
