import PackedTables.Proofs.Layout.Sound
import PackedTables.Proofs.Types.Growth

/-!
# Declarations under a growing registry

A declaration that passes its checks names types that resolve.  They keep their meaning when more
names are registered, so the declaration passes with the same schema, and the layout is the same.
-/

namespace PackedTables

namespace SchemaRules

variable {rules : SchemaRules} {registry next : Registry} {table : String}

theorem checkFields_of_keeps (keeps : registry.Keeps next) {seen : List String}
    {declarations : List FieldDeclaration} {fields : List Field}
    (accepted : rules.checkFields registry table seen declarations = .ok fields) :
    rules.checkFields next table seen declarations = .ok fields := by
  induction declarations generalizing seen fields with
  | nil => exact accepted
  | cons declaration rest ih =>
      obtain ⟨field, others, here, there, rfl⟩ := checkFields_cons accepted
      obtain ⟨sound, free, fresh, named, resolved⟩ := checkField_eq_ok_iff.mp here
      have again : rules.checkField next table seen declaration = .ok field :=
        checkField_eq_ok_iff.mpr ⟨sound, free, fresh, named, keeps _ _ resolved⟩
      unfold checkFields
      rw [again, ih there]

theorem validate_of_keeps (keeps : registry.Keeps next) {declaration : TableDeclaration}
    {schema : Schema} (accepted : rules.validate registry declaration = .ok schema) :
    rules.validate next declaration = .ok schema := by
  obtain ⟨_, named, accepted⟩ := Outcome.bind_eq_ok.mp accepted
  obtain ⟨fields, checked, accepted⟩ := Outcome.bind_eq_ok.mp accepted
  exact Outcome.bind_eq_ok.mpr ⟨_, named,
    Outcome.bind_eq_ok.mpr ⟨fields, checkFields_of_keeps keeps checked, accepted⟩⟩

end SchemaRules

/-! ## Names with brackets -/

namespace Brackets

def registrations : List Registration :=
  [.typeAlias "uint8[" "int16", .typeAlias "uint8[3]" "bool", .enumeration ⟨"Mood", ["calm"]⟩,
    .typeAlias "Mood[]" "bool"]

def declaration : TableDeclaration where
  name := "Board"
  fields := [⟨"place", "uint8"⟩, ⟨"grid", "uint8[3]"⟩]
  key := ["place"]

def schema : Schema where
  name := "Board"
  fields := [⟨"place", .ofKind "uint8" (.uint 8)⟩,
    ⟨"grid", .ofKind "uint8[3]" (.array (.uint 8) (some 3))⟩]
  key := ["place"]
  offchain := false

theorem validate_declaration :
    SchemaRules.validate {} Registry.standard declaration = .ok schema :=
  rfl

end Brackets

/-! ## Meaning -/

namespace Registry

/--
No name changes its meaning.  Whatever is attempted, names that resolved resolve to the same types,
and declarations that passed pass with the same schemas and layouts.  A registration that is refused
changes no name, and any other its own name and, if that is of fixed width, names of arrays of it.
-/
theorem resolve_attemptAll (registry : Registry) (registrations : List Registration) :
    (∀ name type, registry.resolve name = .ok type →
        (registry.attemptAll registrations).resolve name = .ok type) ∧
      (∀ registration fault, registry.register registration = .error fault →
        ∀ name, (registry.attempt registration).resolve name = registry.resolve name) ∧
      (∀ registration next, registry.register registration = .ok next →
        ∃ type, next.resolve registration.name = .ok type ∧
          ∀ name, next.resolve name ≠ registry.resolve name → name = registration.name ∨
            type.isFixed = true ∧ ∃ digits length, pinnedLength? digits = some length ∧
              name = registration.name ++ "[" ++ String.ofList digits ++ "]") ∧
      ∀ (rules : SchemaRules) declaration schema,
        rules.validate registry declaration = .ok schema →
        rules.validate (registry.attemptAll registrations) declaration = .ok schema ∧
          ∀ limits : SchemaRules,
            (rules.validate (registry.attemptAll registrations) declaration >>=
              Layout.plan limits) =
            (rules.validate registry declaration >>= Layout.plan limits) := by
  have keeps := keeps_attemptAll registry registrations
  refine ⟨fun name type resolved => ?_, fun registration fault refused name => ?_,
    fun registration next accepted => ?_, fun rules declaration schema accepted => ?_⟩
  · exact resolve_eq_ok_iff.mpr (keeps name type (resolve_eq_ok_iff.mp resolved))
  · rw [attempt_of_error refused]
  · exact changed_of_register accepted
  · have again := SchemaRules.validate_of_keeps keeps accepted
    exact ⟨again, fun limits => by rw [again, accepted]⟩

/-- An alias whose name ends in a bracket adds arrays of itself, and the board stays as it is. -/
theorem resolve_attemptAll_brackets :
    SchemaRules.validate {} (standard.attemptAll Brackets.registrations) Brackets.declaration =
        .ok Brackets.schema ∧
      (standard.attempt (.typeAlias "uint8[3]" "bool")).resolve "bool[2]" =
        standard.resolve "bool[2]" ∧
      ∃ next type, standard.register (.typeAlias "uint8[" "int16") = .ok next ∧
        next.resolve "uint8[" = .ok type ∧ type.isFixed = true := by
  obtain ⟨-, refused, accepted, declared⟩ := resolve_attemptAll standard Brackets.registrations
  have registered : (standard.register (.typeAlias "uint8[" "int16")) =
      .ok (standard.add (.ofKind "uint8[" (.int 16))) := rfl
  obtain ⟨type, resolved, changed⟩ := accepted _ _ registered
  refine ⟨(declared {} _ _ Brackets.validate_declaration).1, ?_, _, type, registered, resolved, ?_⟩
  · exact refused _ (.duplicateType "uint8[3]") rfl _
  · rcases changed "uint8[[2]" (by decide) with same | ⟨fixed, -⟩
    · exact absurd same (by decide)
    · exact fixed

end Registry

end PackedTables
