import PackedTables.Proofs.Types.Grammar

/-!
# Arrays of arrays

The elements of an array have a fixed width.  So a suffix behind a name of variable width makes no
array, and the whole name is unknown unless it is registered.  Names are registered whatever
characters they have, and a registered name goes before a suffix, so a name that reads like an array
of arrays can still be known: as a name of its own, or as an array of a type with such a name.
-/

namespace PackedTables

namespace Registry

/-- A name with a suffix. -/
def suffixed (name : String) (digits : List Char) : String :=
  name ++ "[" ++ String.ofList digits ++ "]"

/-- A text of one opening bracket behind a name is told apart from the name. -/
theorem suffixed_injective {name other : String} {digits digits' : List Char}
    (plain : '[' ∉ digits) (plain' : '[' ∉ digits')
    (same : suffixed name digits = suffixed other digits') : name = other ∧ digits = digits' := by
  have split := splitSuffix?_joined name plain
  have split' := splitSuffix?_joined other plain'
  rw [← suffixed] at split split'
  rw [same] at split
  exact Prod.mk.inj (Option.some.inj (split.symm.trans split'))

theorem count_suffixed (name : String) (digits : List Char) :
    (suffixed name digits).toList.count '[' = name.toList.count '[' + 1 + digits.count '[' := by
  simp [suffixed, Nat.add_assoc, Nat.add_comm 1]

variable {registry : Registry} {name : String} {type : FieldType} {digits : List Char}

theorem resolve_of_registers (distinct : registry.Distinct)
    (registered : registry.Registers name type) : registry.resolve name = .ok type :=
  resolve_eq_ok_iff.mpr (distinct.resolve?_eq_some_iff.mpr (.inl registered))

theorem resolve_eq_unknown_iff :
    registry.resolve name = .error (.unknownType name none) ↔
      ∀ type, registry.resolve name ≠ .ok type := by
  unfold resolve
  cases registry.resolve? name <;> simp

/-- A suffix of one bracket that makes an array makes it of a registered name of fixed width. -/
theorem registers_of_resolve_suffixed (distinct : registry.Distinct) (plain : '[' ∉ digits)
    (resolved : registry.resolve (suffixed name digits) = .ok type) :
    registry.Registers (suffixed name digits) type ∨
      ∃ element, registry.Registers name element ∧ element.isFixed = true := by
  rcases distinct.resolve?_eq_some_iff.mp (resolve?_of_resolve resolved) with
    registered | ⟨-, elementName, inside, element, length, suffixes, -⟩
  · exact .inl registered
  · obtain ⟨rfl, -⟩ := suffixed_injective plain suffixes.plain suffixes.text
    exact .inr ⟨element, suffixes.registered, suffixes.fixed⟩

/-- Behind a name of variable width no suffix makes an array. -/
theorem registers_of_varying (distinct : registry.Distinct) {element : FieldType}
    (known : registry.resolve name = .ok element) (varying : element.isFixed = false)
    (plain : '[' ∉ digits) (resolved : registry.resolve (suffixed name digits) = .ok type) :
    registry.Registers (suffixed name digits) type := by
  rcases registers_of_resolve_suffixed distinct plain resolved with
    registered | ⟨other, registered, fixed⟩
  · exact registered
  · have same := Except.ok.inj (known.symm.trans (resolve_of_registers distinct registered))
    rw [same, fixed] at varying
    cases varying

/-- Where no registered name has a bracket, at most one bracket opens in a name that resolves. -/
theorem count_le_of_resolve (distinct : registry.Distinct)
    (plain : ∀ type ∈ registry.types, '[' ∉ type.name.toList)
    (resolved : registry.resolve name = .ok type) : name.toList.count '[' ≤ 1 := by
  rcases distinct.resolve?_eq_some_iff.mp (resolve?_of_resolve resolved) with
    ⟨member, rfl⟩ | ⟨-, elementName, inside, element, length, suffixes, -⟩
  · rw [List.count_eq_zero.mpr (plain type member)]
    exact Nat.zero_le 1
  · obtain ⟨member, rfl⟩ := suffixes.registered
    have text : name = suffixed element.name inside := suffixes.text
    rw [text, count_suffixed, List.count_eq_zero.mpr (plain element member),
      List.count_eq_zero.mpr suffixes.plain]

/-! ## Names that look nested -/

namespace Nests

/-- Neither name resolves before it is registered. -/
def registrations : List Registration :=
  [.enumeration ⟨"bytes[]", ["calm"]⟩, .typeAlias "uint8[2][3]" "bool"]

theorem reachable : (standard.attemptAll registrations).Reachable :=
  Reachable.standard.attemptAll registrations

end Nests

/--
A name of variable width with a suffix is unknown unless it is registered, and then it stands for
what it was registered for.  A name of two suffixes resolves only when it is registered, or without
the last suffix is a registered name of fixed width.  In all this no type is an array of arrays, or
of another type of variable width.  If no registered name has a bracket, a name of two suffixes, or
one of variable width with a suffix, is always unknown.
-/
theorem resolve_nested (reachable : registry.Reachable) :
    (∀ name type digits, registry.resolve name = .ok type → type.isFixed = false → '[' ∉ digits →
        (registry.resolve (suffixed name digits) =
            .error (.unknownType (suffixed name digits) none) ↔
          ∀ other, ¬registry.Registers (suffixed name digits) other) ∧
        ∀ other, registry.Registers (suffixed name digits) other →
          registry.resolve (suffixed name digits) = .ok other) ∧
      (∀ name first second type, '[' ∉ second →
        registry.resolve (suffixed (suffixed name first) second) = .ok type →
          registry.Registers (suffixed (suffixed name first) second) type ∨
            ∃ inner, registry.Registers (suffixed name first) inner ∧ inner.isFixed = true) ∧
      (∀ name type element length, registry.resolve name = .ok type →
        type.kind = .array element length →
          element.isArray = false ∧ element.width.isFixed = true) ∧
      ((∀ type ∈ registry.types, '[' ∉ type.name.toList) →
        (∀ name type digits, registry.resolve name = .ok type → type.isFixed = false →
          '[' ∉ digits → registry.resolve (suffixed name digits) =
            .error (.unknownType (suffixed name digits) none)) ∧
        ∀ name first second, registry.resolve (suffixed (suffixed name first) second) =
          .error (.unknownType (suffixed (suffixed name first) second) none)) := by
  have distinct := reachable.distinct
  have unknown (name type digits) (known : registry.resolve name = .ok type)
      (varying : type.isFixed = false) (plain : '[' ∉ digits) :
      registry.resolve (suffixed name digits) =
          .error (.unknownType (suffixed name digits) none) ↔
        ∀ other, ¬registry.Registers (suffixed name digits) other := by
    rw [resolve_eq_unknown_iff]
    constructor
    · exact fun failed other registered =>
        failed other (resolve_of_registers distinct registered)
    · exact fun free other resolved =>
        free other (registers_of_varying distinct known varying plain resolved)
  refine ⟨fun name type digits known varying plain => ⟨unknown name type digits known varying plain,
    fun other registered => resolve_of_registers distinct registered⟩, ?_, ?_, fun brackets => ?_⟩
  · exact fun name first second type plain resolved =>
      registers_of_resolve_suffixed distinct plain resolved
  · intro name type element length resolved array
    have ranged := (reachable.sound.resolve? (resolve?_of_resolve resolved)).1.kind.inRange
    rw [array] at ranged
    exact ⟨ranged.1, ranged.2.1⟩
  · refine ⟨fun name type digits known varying plain => ?_, fun name first second => ?_⟩
    · refine (unknown name type digits known varying plain).mpr fun other registered => ?_
      have opened := brackets other registered.1
      rw [registered.2] at opened
      exact opened (by simp [suffixed])
    · refine resolve_eq_unknown_iff.mpr fun type resolved => ?_
      have few := count_le_of_resolve distinct brackets resolved
      rw [count_suffixed, count_suffixed] at few
      omega

/-- Beside an enumeration that is named like an array of bytes, arrays of strings stay unknown. -/
theorem resolve_nested_bytes :
    (standard.attemptAll Nests.registrations).resolve "string[]" =
        .error (.unknownType "string[]" none) ∧
      (standard.attemptAll Nests.registrations).resolve "bytes[]" =
        .ok (.ofKind "bytes[]" (.enumeration "bytes[]" 1)) := by
  obtain ⟨varying, -, -, -⟩ := resolve_nested Nests.reachable
  obtain ⟨unknown, -⟩ := varying "string" (.ofKind "string" .string) [] rfl rfl List.not_mem_nil
  obtain ⟨-, known⟩ := varying "bytes" (.ofKind "bytes" .bytes) [] rfl rfl List.not_mem_nil
  refine ⟨unknown.mpr (lookup?_eq_none_iff.mp rfl), known _ ⟨?_, rfl⟩⟩
  exact List.mem_cons_of_mem _ List.mem_cons_self

/-- A name of variable width with a suffix can resolve, and so can a name of two suffixes. -/
theorem nested_names_resolve :
    (standard.attemptAll Nests.registrations).Reachable ∧
      (standard.attemptAll Nests.registrations).resolve "bytes" =
        .ok (.ofKind "bytes" .bytes) ∧
      (FieldType.ofKind "bytes" .bytes).isFixed = false ∧
      (standard.attemptAll Nests.registrations).resolve (suffixed "bytes" []) =
        .ok (.ofKind "bytes[]" (.enumeration "bytes[]" 1)) ∧
      (standard.attemptAll Nests.registrations).resolve (suffixed (suffixed "uint8" ['2']) ['3']) =
        .ok (.ofKind "uint8[2][3]" .bool) :=
  ⟨Nests.reachable, rfl, rfl, rfl, rfl⟩

end Registry

end PackedTables
