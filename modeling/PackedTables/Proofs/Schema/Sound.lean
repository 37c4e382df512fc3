import PackedTables.Proofs.Outcome
import PackedTables.Proofs.Types.Sound
import PackedTables.Schema.Check

/-!
# Sound schemas

What a declaration that passes its checks has become: distinct fields of sound types, and a key of
distinct names, each of a field of fixed width.
-/

namespace PackedTables

/-- Among distinct names an item is found under its own. -/
theorem find?_named_eq_some_iff {α : Type} {nameOf : α → String} {items : List α}
    (distinct : (items.map nameOf).Nodup) {name : String} {item : α} :
    items.find? (fun item => nameOf item == name) = some item ↔
      item ∈ items ∧ nameOf item = name := by
  constructor
  · intro found
    exact ⟨List.mem_of_find?_eq_some found, by simpa using List.find?_some found⟩
  · rintro ⟨member, rfl⟩
    induction items with
    | nil => cases member
    | cons head rest ih =>
        rw [List.map_cons, List.nodup_cons] at distinct
        rcases List.mem_cons.mp member with rfl | inRest
        · exact List.find?_cons_of_pos (by simp)
        · have apart : ¬(nameOf head == nameOf item) = true := by
            intro same
            exact distinct.1 (List.mem_map.mpr ⟨item, inRest, (beq_iff_eq.mp same).symm⟩)
          exact Eq.trans (List.find?_cons_of_neg apart) (ih distinct.2 inRest)

namespace Schema

structure Sound (schema : Schema) : Prop where
  distinct : (schema.fields.map (·.name)).Nodup
  types : ∀ field ∈ schema.fields, field.type.Sound
  keyDistinct : schema.key.Nodup
  keyFixed : ∀ name ∈ schema.key, ∃ field, schema.field? name = some field ∧
    field.type.isFixed = true

theorem Sound.field?_eq_some_iff {schema : Schema} (sound : schema.Sound) {name : String}
    {field : Field} :
    schema.field? name = some field ↔ field ∈ schema.fields ∧ field.name = name :=
  find?_named_eq_some_iff sound.distinct

end Schema

namespace SchemaRules

variable {rules : SchemaRules} {registry : Registry} {table : String}

theorem checkName_eq_ok_iff {name : String} :
    rules.checkName name = .ok () ↔ rules.nameFlaw? name = none := by
  unfold checkName
  cases rules.nameFlaw? name <;> simp

/-- The type is looked up last, and one that is not known is told with its field. -/
theorem checkField_eq_bind (rules : SchemaRules) (registry : Registry) (table : String)
    (seen : List String) (field : FieldDeclaration) :
    rules.checkField registry table seen field =
      rules.checkName field.name >>= fun _ =>
        if rules.isReserved field.name then .error (.reservedName table field.name)
        else if seen.contains field.name then .error (.duplicateField table field.name)
        else
          match registry.resolve? field.typeName with
          | some type => .ok ⟨field.name, type⟩
          | none => .error (.unknownType field.typeName (some (table, field.name))) := by
  unfold checkField Registry.resolve
  cases registry.resolve? field.typeName <;> rfl

theorem checkField_eq_ok_iff {seen : List String} {declaration : FieldDeclaration} {field : Field} :
    rules.checkField registry table seen declaration = .ok field ↔
      rules.nameFlaw? declaration.name = none ∧ rules.isReserved declaration.name = false ∧
        declaration.name ∉ seen ∧ field.name = declaration.name ∧
        registry.resolve? declaration.typeName = some field.type := by
  rw [checkField_eq_bind, ← checkName_eq_ok_iff]
  cases rules.checkName declaration.name with
  | error fault => simp [Outcome.error_bind]
  | ok _ =>
      rw [Outcome.ok_bind]
      cases reserved : rules.isReserved declaration.name with
      | true => simp
      | false =>
          by_cases repeated : declaration.name ∈ seen
          · simp [repeated]
          · cases registry.resolve? declaration.typeName with
            | none => simp [repeated]
            | some type =>
                simp only [Bool.false_eq_true, if_false, List.contains_eq_mem, repeated,
                  decide_false, Except.ok.injEq, Option.some.injEq, not_false_eq_true, true_and]
                constructor
                · rintro rfl
                  exact ⟨rfl, rfl⟩
                · rintro ⟨named, rfl⟩
                  rw [← named]

theorem checkFields_cons_eq (rules : SchemaRules) (registry : Registry) (table : String)
    (seen : List String) (declaration : FieldDeclaration) (rest : List FieldDeclaration) :
    rules.checkFields registry table seen (declaration :: rest) =
      rules.checkField registry table seen declaration >>= fun field =>
        rules.checkFields registry table (declaration.name :: seen) rest >>= fun fields =>
          .ok (field :: fields) := by
  rw [checkFields]
  cases rules.checkField registry table seen declaration with
  | error fault => rfl
  | ok field =>
      rw [Outcome.ok_bind]
      cases rules.checkFields registry table (declaration.name :: seen) rest <;> rfl

theorem checkFields_cons {seen : List String} {declaration : FieldDeclaration}
    {rest : List FieldDeclaration} {fields : List Field}
    (accepted : rules.checkFields registry table seen (declaration :: rest) = .ok fields) :
    ∃ field others, rules.checkField registry table seen declaration = .ok field ∧
      rules.checkFields registry table (declaration.name :: seen) rest = .ok others ∧
      fields = field :: others := by
  rw [checkFields_cons_eq] at accepted
  obtain ⟨field, here, continued⟩ := Outcome.bind_eq_ok.mp accepted
  obtain ⟨others, there, same⟩ := Outcome.bind_eq_ok.mp continued
  exact ⟨field, others, here, there, (Except.ok.inj same).symm⟩

/-- Checked fields differ in name from each other and from all that came before. -/
theorem distinct_of_checkFields {seen : List String} {declarations : List FieldDeclaration}
    {fields : List Field}
    (accepted : rules.checkFields registry table seen declarations = .ok fields) :
    (fields.map (·.name)).Nodup ∧ ∀ field ∈ fields, field.name ∉ seen := by
  induction declarations generalizing seen fields with
  | nil =>
      obtain rfl := Except.ok.inj accepted
      exact ⟨List.nodup_nil, fun field member => absurd member List.not_mem_nil⟩
  | cons declaration rest ih =>
      obtain ⟨field, others, here, there, rfl⟩ := checkFields_cons accepted
      obtain ⟨sound, free, fresh, named, resolved⟩ := checkField_eq_ok_iff.mp here
      obtain ⟨distinct, apart⟩ := ih there
      constructor
      · rw [List.map_cons, List.nodup_cons]
        refine ⟨fun repeated => ?_, distinct⟩
        obtain ⟨other, member, same⟩ := List.mem_map.mp repeated
        exact apart other member (by rw [same, named]; exact List.mem_cons_self)
      · intro other member
        rcases List.mem_cons.mp member with rfl | inRest
        · rwa [named]
        · exact fun old => apart other inRest (List.mem_cons_of_mem _ old)

theorem types_of_checkFields (sound : registry.Sound) {seen : List String}
    {declarations : List FieldDeclaration} {fields : List Field}
    (accepted : rules.checkFields registry table seen declarations = .ok fields) :
    ∀ field ∈ fields, field.type.Sound := by
  induction declarations generalizing seen fields with
  | nil =>
      obtain rfl := Except.ok.inj accepted
      exact fun field member => absurd member List.not_mem_nil
  | cons declaration rest ih =>
      obtain ⟨field, others, here, there, rfl⟩ := checkFields_cons accepted
      intro other member
      rcases List.mem_cons.mp member with rfl | inRest
      · exact (sound.resolve? (checkField_eq_ok_iff.mp here).2.2.2.2).1
      · exact ih there other inRest

theorem checkKey_eq_ok {fields : List Field} {seen names : List String}
    (accepted : checkKey table fields seen names = .ok ()) :
    names.Nodup ∧ (∀ name ∈ names, name ∉ seen) ∧ ∀ name ∈ names, ∃ field,
      fields.find? (fun field => field.name == name) = some field ∧
        field.type.isFixed = true := by
  induction names generalizing seen with
  | nil => simp
  | cons name rest ih =>
      unfold checkKey at accepted
      split at accepted
      · cases accepted
      · rename_i field found
        split at accepted
        · cases accepted
        · rename_i fresh
          split at accepted
          · rename_i fixed
            obtain ⟨distinct, apart, each⟩ := ih accepted
            refine ⟨List.nodup_cons.mpr ⟨fun repeated => ?_, distinct⟩, ?_, ?_⟩
            · exact apart name repeated List.mem_cons_self
            · intro other member
              rcases List.mem_cons.mp member with rfl | inRest
              · simpa using fresh
              · exact fun old => apart other inRest (List.mem_cons_of_mem _ old)
            · intro other member
              rcases List.mem_cons.mp member with rfl | inRest
              · exact ⟨field, found, fixed⟩
              · exact each other inRest
          · cases accepted

variable {declaration : TableDeclaration} {schema : Schema}

theorem validate_eq_ok (accepted : rules.validate registry declaration = .ok schema) :
    rules.checkFields registry declaration.name [] declaration.fields = .ok schema.fields ∧
      checkKey declaration.name schema.fields [] schema.key = .ok () ∧
      schema.name = declaration.name ∧ schema.key = declaration.key ∧
      schema.offchain = declaration.offchain := by
  obtain ⟨_, named, accepted⟩ := Outcome.bind_eq_ok.mp accepted
  obtain ⟨fields, checked, accepted⟩ := Outcome.bind_eq_ok.mp accepted
  obtain ⟨_, keyed, accepted⟩ := Outcome.bind_eq_ok.mp accepted
  obtain rfl := Outcome.pure_eq_ok.mp accepted
  exact ⟨checked, keyed, rfl, rfl, rfl⟩

theorem sound_of_validate (sound : registry.Sound)
    (accepted : rules.validate registry declaration = .ok schema) : schema.Sound := by
  obtain ⟨checked, keyed, -, -, -⟩ := validate_eq_ok accepted
  obtain ⟨keyDistinct, -, keyFixed⟩ := checkKey_eq_ok keyed
  exact ⟨(distinct_of_checkFields checked).1, types_of_checkFields sound checked, keyDistinct,
    keyFixed⟩

end SchemaRules

end PackedTables
