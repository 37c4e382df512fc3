import PackedTables.Proofs.Outcome
import PackedTables.Proofs.Schema.Sound
import PackedTables.Proofs.Text.Identifier
import PackedTables.Proofs.Types.Growth

/-!
# Declarations that are refused

What a declaration has to be, and every fault that it can have: of its name, of each field after
those before it, of each key entry after those before it.  A fault is told by what is declared
alone, whatever else is wrong.  A declaration with no fault becomes a schema, and any other is
refused for the first fault of the list.
-/

namespace PackedTables

open Outcome (Tells faultIf faultIf_eq_nil_iff faultsAlong faultsAlong_eq_nil_iff)

/-- A name of values whose width differs. -/
def Registry.Varies (registry : Registry) (name : String) : Prop :=
  ∃ type ∈ registry.resolve? name, type.isFixed = false

instance (registry : Registry) (name : String) : Decidable (registry.Varies name) :=
  Option.decidableExistsMem _

/-! ## What a declaration becomes -/

structure FieldDeclaration.Resolves (registry : Registry) (declaration : FieldDeclaration)
    (field : Field) : Prop where
  name : field.name = declaration.name
  type : registry.resolve declaration.typeName = .ok field.type

structure TableDeclaration.Resolves (registry : Registry) (declaration : TableDeclaration)
    (schema : Schema) : Prop where
  name : schema.name = declaration.name
  fields : List.Forall₂ (FieldDeclaration.Resolves registry) declaration.fields schema.fields
  key : schema.key = declaration.key
  offchain : schema.offchain = declaration.offchain

namespace SchemaRules

/-! ## What a declaration has to be -/

structure Named (rules : SchemaRules) (name : String) : Prop where
  nonempty : name ≠ ""
  identifier : rules.identifierNames = true → Identifier.Matches name

/-- Built in or configured. -/
def Reserves (rules : SchemaRules) (name : String) : Prop :=
  name ∈ builtinNames ∨ name ∈ rules.reservedNames

instance (rules : SchemaRules) (name : String) : Decidable (rules.Reserves name) :=
  inferInstanceAs (Decidable (_ ∨ _))

structure Allows (rules : SchemaRules) (registry : Registry) (declaration : TableDeclaration) :
    Prop where
  named : rules.Named declaration.name
  fieldsNamed : ∀ field ∈ declaration.fields, rules.Named field.name
  unreserved : ∀ field ∈ declaration.fields, ¬rules.Reserves field.name
  distinct : (declaration.fields.map (·.name)).Nodup
  typed : ∀ field ∈ declaration.fields, ∃ type, registry.resolve field.typeName = .ok type
  keyDistinct : declaration.key.Nodup
  keyFixed : ∀ name ∈ declaration.key, ∃ field ∈ declaration.fields, field.name = name ∧
    ∃ type, registry.resolve field.typeName = .ok type ∧ type.isFixed = true

/-! ## All faults of a declaration -/

def nameFaults (rules : SchemaRules) (name : String) : List Fault :=
  faultIf (name = "") (.invalidName name .empty) ++
  faultIf (rules.identifierNames = true ∧ ¬Identifier.Matches name)
    (.invalidName name .notIdentifier)

def fieldFaults (rules : SchemaRules) (registry : Registry) (table : String)
    (before : List FieldDeclaration) (field : FieldDeclaration) : List Fault :=
  rules.nameFaults field.name ++
  (faultIf (rules.Reserves field.name) (.reservedName table field.name) ++
  (faultIf (field.name ∈ before.map (·.name)) (.duplicateField table field.name) ++
  faultIf (registry.resolve? field.typeName = none)
    (.unknownType field.typeName (some (table, field.name)))))

/-- A key entry names the first field of its name. -/
def keyFaults (registry : Registry) (declaration : TableDeclaration) (before : List String)
    (name : String) : List Fault :=
  faultIf (name ∉ declaration.fields.map (·.name)) (.unknownKeyField declaration.name name) ++
  (faultIf (name ∈ before) (.duplicateKeyField declaration.name name) ++
  (declaration.fields.find? fun field => field.name == name).toList.flatMap fun field =>
    faultIf (registry.Varies field.typeName)
      (.dynamicKeyField declaration.name name field.typeName))

/-- All faults in reading order. -/
def faults (rules : SchemaRules) (registry : Registry) (declaration : TableDeclaration) :
    List Fault :=
  rules.nameFaults declaration.name ++
  (faultsAlong (rules.fieldFaults registry declaration.name) [] declaration.fields ++
  faultsAlong (keyFaults registry declaration) [] declaration.key)

variable {rules : SchemaRules} {registry : Registry} {table name : String}
variable {declaration : TableDeclaration}

/-! ## No faults -/

theorem nameFaults_eq_nil_iff : rules.nameFaults name = [] ↔ rules.Named name := by
  rw [nameFaults, List.append_eq_nil_iff, faultIf_eq_nil_iff, faultIf_eq_nil_iff, not_and, not_not]
  exact ⟨fun ⟨nonempty, identifier⟩ => ⟨nonempty, identifier⟩,
    fun ⟨nonempty, identifier⟩ => ⟨nonempty, identifier⟩⟩

theorem resolve?_ne_none_iff :
    ¬registry.resolve? name = none ↔ ∃ type, registry.resolve name = .ok type := by
  simp only [Registry.resolve_eq_ok_iff, ← Option.isSome_iff_exists, Option.isSome_iff_ne_none,
    ne_eq]

theorem varies_iff {type : FieldType} (resolved : registry.resolve name = .ok type) :
    registry.Varies name ↔ type.isFixed = false := by
  simp [Registry.Varies, Registry.resolve_eq_ok_iff.mp resolved]

theorem not_varies_iff (typed : ∃ type, registry.resolve name = .ok type) :
    ¬registry.Varies name ↔
      ∃ type, registry.resolve name = .ok type ∧ type.isFixed = true := by
  obtain ⟨type, resolved⟩ := typed
  rw [varies_iff resolved]
  simp [resolved]

theorem fieldFaults_eq_nil_iff {before : List FieldDeclaration} {field : FieldDeclaration} :
    rules.fieldFaults registry table before field = [] ↔
      (rules.Named field.name ∧ ¬rules.Reserves field.name ∧
        ∃ type, registry.resolve field.typeName = .ok type) ∧
      field.name ∉ before.map (·.name) := by
  simp only [fieldFaults, List.append_eq_nil_iff, nameFaults_eq_nil_iff, faultIf_eq_nil_iff,
    resolve?_ne_none_iff]
  constructor
  · rintro ⟨named, free, fresh, typed⟩
    exact ⟨⟨named, free, typed⟩, fresh⟩
  · rintro ⟨⟨named, free, typed⟩, fresh⟩
    exact ⟨named, free, fresh, typed⟩

theorem keyFaults_of_none {before : List String}
    (missing : (declaration.fields.find? fun field => field.name == name) = none) :
    keyFaults registry declaration before name =
      .unknownKeyField declaration.name name ::
        faultIf (name ∈ before) (.duplicateKeyField declaration.name name) := by
  have unknown : name ∉ declaration.fields.map (·.name) := by
    simpa using List.find?_eq_none.mp missing
  simp [keyFaults, missing, faultIf, unknown]

theorem keyFaults_of_some {before : List String} {field : FieldDeclaration}
    (found : (declaration.fields.find? fun field => field.name == name) = some field) :
    keyFaults registry declaration before name =
      faultIf (name ∈ before) (.duplicateKeyField declaration.name name) ++
        faultIf (registry.Varies field.typeName)
          (.dynamicKeyField declaration.name name field.typeName) := by
  have known : name ∈ declaration.fields.map (·.name) :=
    List.mem_map.mpr ⟨field, List.mem_of_find?_eq_some found, by
      simpa using List.find?_some found⟩
  simp [keyFaults, found, faultIf, known]

theorem keyFaults_eq_nil_iff {before : List String} :
    keyFaults registry declaration before name = [] ↔
      (∃ field, (declaration.fields.find? fun field => field.name == name) = some field ∧
        ¬registry.Varies field.typeName) ∧
      id name ∉ before.map id := by
  cases found : declaration.fields.find? fun field => field.name == name with
  | none => simp [keyFaults_of_none found]
  | some field =>
      rw [keyFaults_of_some found, List.append_eq_nil_iff, faultIf_eq_nil_iff, faultIf_eq_nil_iff,
        List.map_id, and_comm]
      simp

theorem faults_eq_nil_iff :
    rules.faults registry declaration = [] ↔ rules.Allows registry declaration := by
  rw [faults, List.append_eq_nil_iff, List.append_eq_nil_iff, nameFaults_eq_nil_iff,
    faultsAlong_eq_nil_iff FieldDeclaration.name (fun _ _ => fieldFaults_eq_nil_iff),
    faultsAlong_eq_nil_iff id (fun _ _ => keyFaults_eq_nil_iff), List.map_id]
  constructor
  · rintro ⟨named, ⟨clean, distinct⟩, keyed, keyDistinct⟩
    refine ⟨named, fun field member => (clean field member).1,
      fun field member => (clean field member).2.1, distinct,
      fun field member => (clean field member).2.2, keyDistinct, fun name member => ?_⟩
    obtain ⟨field, found, steady⟩ := keyed name member
    obtain ⟨declared, same⟩ := (find?_named_eq_some_iff distinct).mp found
    exact ⟨field, declared, same, (not_varies_iff (clean field declared).2.2).mp steady⟩
  · intro allowed
    refine ⟨allowed.named, ⟨fun field member => ⟨allowed.fieldsNamed field member,
      allowed.unreserved field member, allowed.typed field member⟩, allowed.distinct⟩,
      fun name member => ?_, allowed.keyDistinct⟩
    obtain ⟨field, declared, same, fixed⟩ := allowed.keyFixed name member
    exact ⟨field, (find?_named_eq_some_iff allowed.distinct).mpr ⟨declared, same⟩,
      (not_varies_iff (allowed.typed field declared)).mpr fixed⟩

instance : Decidable (rules.Allows registry declaration) :=
  decidable_of_iff (rules.faults registry declaration = []) faults_eq_nil_iff

/-! ## The first fault -/

theorem checkName_tells (rules : SchemaRules) (name : String) :
    Tells (rules.checkName name) (rules.nameFaults name) := by
  have strange : (rules.identifierNames && !isIdentifier name) = true ↔
      rules.identifierNames = true ∧ ¬Identifier.Matches name := by
    rw [Bool.and_eq_true, Bool.not_eq_true', ← Identifier.isIdentifier_iff, Bool.not_eq_true]
  have tested : rules.checkName name =
      if name = "" then .error (.invalidName name .empty)
      else if rules.identifierNames && !isIdentifier name then
        .error (.invalidName name .notIdentifier)
      else .ok () := by
    unfold checkName nameFlaw?
    split_ifs <;> rfl
  rw [tested, nameFaults, ← List.append_nil (faultIf (_ ∧ _) _)]
  exact ((Tells.of_ok ()).forbid strange _).forbid Iff.rfl _

theorem checkField_tells (rules : SchemaRules) (registry : Registry) (table : String)
    {seen : List String} {before : List FieldDeclaration}
    (known : ∀ name, name ∈ seen ↔ name ∈ before.map (·.name)) (field : FieldDeclaration) :
    Tells (rules.checkField registry table seen field)
      (rules.fieldFaults registry table before field) := by
  have reserved : rules.isReserved field.name = true ↔ rules.Reserves field.name := by
    simp [isReserved, Reserves]
  have repeated : seen.contains field.name = true ↔ field.name ∈ before.map (·.name) := by
    rw [List.contains_iff_mem, known]
  rw [checkField_eq_bind, fieldFaults]
  refine (checkName_tells rules field.name).bind fun _ _ =>
    Tells.forbid (Tells.forbid ?_ repeated _) reserved _
  cases registry.resolve? field.typeName with
  | some type => exact Tells.of_ok _
  | none => exact Tells.of_error _ []

/-- The names seen stay those of the items before. -/
theorem mem_seen_cons {α : Type} {nameOf : α → String} {seen : List String} {before : List α}
    (known : ∀ name, name ∈ seen ↔ name ∈ before.map nameOf) (item : α) (name : String) :
    name ∈ nameOf item :: seen ↔ name ∈ (before ++ [item]).map nameOf := by
  rw [List.mem_cons, known, List.map_append, List.mem_append, or_comm, List.map_singleton,
    List.mem_singleton]

theorem checkFields_tells (rules : SchemaRules) (registry : Registry) (table : String)
    {seen : List String} {before : List FieldDeclaration}
    (known : ∀ name, name ∈ seen ↔ name ∈ before.map (·.name)) (fields : List FieldDeclaration) :
    Tells (rules.checkFields registry table seen fields)
      (faultsAlong (rules.fieldFaults registry table) before fields) := by
  induction fields generalizing seen before with
  | nil => exact Tells.of_ok []
  | cons field rest ih =>
      rw [checkFields_cons_eq, faultsAlong]
      refine (checkField_tells rules registry table known field).bind fun _ _ => ?_
      rw [← List.append_nil (faultsAlong _ _ _)]
      exact (ih (mem_seen_cons known field)).bind fun others _ => Tells.of_ok _

theorem resolves_of_checkFields {seen : List String} {declarations : List FieldDeclaration}
    {fields : List Field}
    (accepted : rules.checkFields registry table seen declarations = .ok fields) :
    List.Forall₂ (FieldDeclaration.Resolves registry) declarations fields := by
  induction declarations generalizing seen fields with
  | nil =>
      obtain rfl := Except.ok.inj accepted
      exact .nil
  | cons declaration rest ih =>
      obtain ⟨field, others, here, there, rfl⟩ := checkFields_cons accepted
      obtain ⟨-, -, -, named, resolved⟩ := checkField_eq_ok_iff.mp here
      exact .cons ⟨named, Registry.resolve_eq_ok_iff.mpr resolved⟩ (ih there)

/-- A declared field and what has become of it are found together. -/
theorem find?_of_resolves {declarations : List FieldDeclaration} {fields : List Field}
    (resolves : List.Forall₂ (FieldDeclaration.Resolves registry) declarations fields)
    (name : String) :
    ((declarations.find? fun field => field.name == name) = none ∧
      (fields.find? fun field => field.name == name) = none) ∨
    ∃ declared field, (declarations.find? fun field => field.name == name) = some declared ∧
      (fields.find? fun field => field.name == name) = some field ∧
      declared.Resolves registry field := by
  induction resolves with
  | nil => exact .inl ⟨rfl, rfl⟩
  | @cons declaration field declarations fields here there ih =>
      simp only [List.find?_cons, here.name]
      cases declaration.name == name with
      | true => exact .inr ⟨declaration, field, rfl, rfl, here⟩
      | false => exact ih

theorem checkKey_tells (sound : registry.Sound) {fields : List Field}
    (resolves : List.Forall₂ (FieldDeclaration.Resolves registry) declaration.fields fields)
    {seen before : List String} (known : ∀ name, name ∈ seen ↔ name ∈ before.map id)
    (names : List String) :
    Tells (checkKey declaration.name fields seen names)
      (faultsAlong (keyFaults registry declaration) before names) := by
  induction names generalizing seen before with
  | nil => exact Tells.of_ok ()
  | cons name rest ih =>
      have repeated : seen.contains name = true ↔ name ∈ before := by
        rw [List.contains_iff_mem, known, List.map_id]
      unfold checkKey
      rw [faultsAlong]
      rcases find?_of_resolves resolves name with
        ⟨missing, lost⟩ | ⟨declared, field, found, become, here⟩
      · rw [lost, keyFaults_of_none missing]
        exact Tells.of_error _ _
      · have named := (sound.resolve? (Registry.resolve_eq_ok_iff.mp here.type)).2
        have varies := varies_iff here.type
        rw [become, keyFaults_of_some found, List.append_assoc]
        refine Tells.forbid ?_ repeated _
        cases fixed : field.type.isFixed with
        | true =>
            have steady : ¬registry.Varies declared.typeName := by simp [varies, fixed]
            rw [if_pos rfl, faultIf, if_neg steady]
            exact ih (mem_seen_cons known name)
        | false =>
            rw [if_neg Bool.false_ne_true, faultIf, if_pos (varies.mpr fixed), named]
            exact Tells.of_error _ _

theorem validate_tells (sound : registry.Sound) (rules : SchemaRules)
    (declaration : TableDeclaration) :
    Tells (rules.validate registry declaration) (rules.faults registry declaration) := by
  unfold validate faults
  refine (checkName_tells rules declaration.name).bind fun _ _ => ?_
  refine (checkFields_tells rules registry declaration.name (by simp) declaration.fields).bind
    fun fields accepted => ?_
  rw [← List.append_nil (faultsAlong (keyFaults _ _) _ _)]
  exact (checkKey_tells sound (resolves_of_checkFields accepted) (by simp) declaration.key).bind
    fun _ _ => Tells.of_ok _

theorem resolves_of_validate {schema : Schema}
    (accepted : rules.validate registry declaration = .ok schema) :
    declaration.Resolves registry schema := by
  obtain ⟨checked, -, named, keyed, offchain⟩ := validate_eq_ok accepted
  exact ⟨named, resolves_of_checkFields checked, keyed, offchain⟩

end SchemaRules

/-! ## Many faults at once -/

namespace Seats

def rules : SchemaRules := { reservedNames := ["owner"] }

def declaration : TableDeclaration where
  name := "Seat"
  fields := [⟨"row", "uint8"⟩, ⟨"label", "string"⟩]
  key := ["row"]

/-- Every field but the first is wrong, one of them twice, and so is every key entry. -/
def crowded : TableDeclaration where
  name := "Seat"
  fields := [⟨"label", "string"⟩, ⟨"label", "uint7"⟩, ⟨"owner", "bool"⟩, ⟨"2nd", "bool"⟩]
  key := ["row", "label", "label"]

theorem allows_declaration : rules.Allows Registry.standard declaration := by
  decide

theorem faults_crowded : rules.faults Registry.standard crowded =
    [.duplicateField "Seat" "label", .unknownType "uint7" (some ("Seat", "label")),
      .reservedName "Seat" "owner", .invalidName "2nd" .notIdentifier,
      .unknownKeyField "Seat" "row", .dynamicKeyField "Seat" "label" "string",
      .duplicateKeyField "Seat" "label", .dynamicKeyField "Seat" "label" "string"] := by
  decide

end Seats

/-! ## The verdict -/

namespace SchemaRules

/--
A declaration becomes a schema exactly when all that is asked of it holds.  The schema has its
fields in their order, each of the type that its type name resolves to, and all else as declared.  A
declaration that is refused is refused for the first of its faults.
-/
theorem validate_verdict {registry : Registry} (reachable : registry.Reachable)
    (rules : SchemaRules) (declaration : TableDeclaration) :
    ((∃ schema, rules.validate registry declaration = .ok schema) ↔
        rules.Allows registry declaration) ∧
      (∀ schema, rules.validate registry declaration = .ok schema →
        declaration.Resolves registry schema) ∧
      ∀ fault, rules.validate registry declaration = .error fault ↔
        (rules.faults registry declaration).head? = some fault := by
  have tells := validate_tells reachable.sound rules declaration
  exact ⟨tells.ok.trans faults_eq_nil_iff, fun _ accepted => resolves_of_validate accepted,
    tells.error⟩

/-- Seats are accepted, and of the eight faults of the crowded table the first is told. -/
theorem validate_verdict_seats :
    Registry.standard.Reachable ∧
      (∃ schema, Seats.rules.validate Registry.standard Seats.declaration = .ok schema) ∧
      Seats.rules.validate Registry.standard Seats.crowded =
        .error (.duplicateField "Seat" "label") := by
  obtain ⟨accepted, -, -⟩ := validate_verdict .standard Seats.rules Seats.declaration
  obtain ⟨-, -, refused⟩ := validate_verdict .standard Seats.rules Seats.crowded
  exact ⟨.standard, accepted.mpr Seats.allows_declaration,
    (refused _).mpr (by rw [Seats.faults_crowded]; rfl)⟩

end SchemaRules

end PackedTables
