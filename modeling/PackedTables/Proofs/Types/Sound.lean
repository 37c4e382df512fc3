import Mathlib.Algebra.Group.Nat.Defs
import PackedTables.Types.Registry

/-!
# Sound types

The kinds that a registry can give out: scalars of one to thirty-two bytes, texts, and arrays of
scalars.  Registering keeps a registry sound, so every name that resolves in a registry that can be
reached has a sound type, worked out from its kind and named as it was asked for.
-/

namespace PackedTables

namespace Kind

/-- Kinds that take a fixed count of bytes. -/
inductive Scalar : Kind → Prop
  | bool : Scalar .bool
  | uint {count : Nat} : 0 < count → count ≤ 32 → Scalar (.uint (8 * count))
  | int {count : Nat} : 0 < count → count ≤ 32 → Scalar (.int (8 * count))
  | fixedBytes {length : Nat} : 0 < length → length ≤ 32 → Scalar (.fixedBytes length)
  | address : Scalar .address
  | enumeration {name : String} {variants : Nat} : 0 < variants → variants ≤ 256 →
      Scalar (.enumeration name variants)

inductive Sound : Kind → Prop
  | scalar {kind : Kind} : Scalar kind → Sound kind
  | bytes : Sound .bytes
  | string : Sound .string
  | array {element : Kind} {length : Option Nat} : Scalar element →
      (∀ count, length = some count → 0 < count) → Sound (.array element length)

/-- Arrays of as many elements as their type says. -/
def isPinned : Kind → Bool
  | .array _ (some _) => true
  | _ => false

theorem Scalar.width_eq {kind : Kind} (scalar : kind.Scalar) :
    ∃ width, kind.width = .fixed width ∧ 0 < width ∧ width ≤ 32 := by
  cases scalar with
  | bool => exact ⟨1, rfl, by decide, by decide⟩
  | @uint count some few => exact ⟨8 * count / 8, rfl, by omega, by omega⟩
  | @int count some few => exact ⟨8 * count / 8, rfl, by omega, by omega⟩
  | @fixedBytes length some few => exact ⟨length, rfl, some, few⟩
  | address => exact ⟨20, rfl, by decide, by decide⟩
  | enumeration some few => exact ⟨1, rfl, by decide, by decide⟩

theorem Sound.scalar_of_fixed {kind : Kind} (sound : kind.Sound) {width : Nat}
    (fixed : kind.width = .fixed width) : kind.Scalar := by
  cases sound with
  | scalar scalar => exact scalar
  | bytes => cases fixed
  | string => cases fixed
  | array element counted => cases fixed

theorem Scalar.isPinned_eq {kind : Kind} (scalar : kind.Scalar) : kind.isPinned = false := by
  cases scalar <;> rfl

end Kind

/-- What follows from the kind is worked out from it, and the kind is sound. -/
structure FieldType.Sound (type : FieldType) : Prop where
  made : type = .ofKind type.name type.kind
  kind : type.kind.Sound

namespace FieldType

theorem sound_ofKind (name : String) {kind : Kind} (sound : kind.Sound) :
    (ofKind name kind).Sound :=
  ⟨rfl, sound⟩

theorem Sound.width_eq {type : FieldType} (sound : type.Sound) : type.width = type.kind.width :=
  congrArg FieldType.width sound.made

theorem Sound.standard_eq {type : FieldType} (sound : type.Sound) :
    type.standard = standardOf type.kind.width :=
  congrArg FieldType.standard sound.made

theorem Sound.typeId_eq {type : FieldType} (sound : type.Sound) :
    type.typeId = type.kind.typeId?.getD 0 :=
  congrArg FieldType.typeId sound.made

end FieldType

namespace Registry

def Sound (registry : Registry) : Prop := ∀ type ∈ registry.types, type.Sound

/-- Registries that come about by registering names, from none or from the standard types. -/
inductive Reachable : Registry → Prop
  | empty : Reachable .empty
  | standard : Reachable .standard
  | enumeration {registry next : Registry} {declaration : EnumDeclaration} :
      Reachable registry → registry.registerEnum declaration = .ok next → Reachable next
  | typeAlias {registry next : Registry} {name target : String} :
      Reachable registry → registry.registerAlias name target = .ok next → Reachable next

theorem sound_standard : standard.Sound := by
  intro type member
  simp only [standard, standardTypes, bitWidths, List.mem_append, List.mem_flatMap, List.mem_map,
    List.mem_range, List.mem_cons, List.not_mem_nil, or_false] at member
  rcases member with ((plain | ⟨bits, ⟨index, small, rfl⟩, number⟩) | ⟨index, small, rfl⟩) | text
  · rcases plain with rfl | rfl
    · exact FieldType.sound_ofKind _ (.scalar .bool)
    · exact FieldType.sound_ofKind _ (.scalar .address)
  · have some : 0 < index + 1 := Nat.succ_pos index
    rcases number with rfl | rfl
    · exact FieldType.sound_ofKind _ (.scalar (.uint some small))
    · exact FieldType.sound_ofKind _ (.scalar (.int some small))
  · exact FieldType.sound_ofKind _ (.scalar (.fixedBytes (Nat.succ_pos index) small))
  · rcases text with rfl | rfl
    · exact FieldType.sound_ofKind _ .bytes
    · exact FieldType.sound_ofKind _ .string

variable {registry next : Registry} {name : String} {type : FieldType}

theorem mem_of_lookup? (found : registry.lookup? name = some type) :
    type ∈ registry.types ∧ type.name = name :=
  ⟨List.mem_of_find?_eq_some found, by simpa using List.find?_some found⟩

theorem pos_of_pinnedLength? {digits : List Char} {length : Option Nat}
    (read : pinnedLength? digits = some length) : ∀ count, length = some count → 0 < count := by
  rintro count rfl
  unfold pinnedLength? at read
  split at read
  · cases read
  · obtain ⟨value, kept, same⟩ := Option.map_eq_some_iff.mp read
    obtain rfl := Option.some.inj same
    simpa using (Option.filter_eq_some_iff.mp kept).2

theorem Sound.resolveArray? (sound : registry.Sound)
    (resolved : registry.resolveArray? name = some type) : type.Sound ∧ type.name = name := by
  simp only [Registry.resolveArray?, Option.bind_eq_bind, Option.bind_eq_some_iff] at resolved
  obtain ⟨⟨elementName, digits⟩, split, length, pinned, element, found, made⟩ := resolved
  split at made
  · rename_i fixed
    obtain rfl := Option.some.inj made
    have elementSound := sound element (mem_of_lookup? found).1
    have scalar : element.kind.Scalar := by
      unfold FieldType.isFixed Width.isFixed at fixed
      rw [elementSound.width_eq] at fixed
      cases width : element.kind.width with
      | fixed bytes => exact elementSound.kind.scalar_of_fixed width
      | varying =>
          rw [width] at fixed
          cases fixed
    exact ⟨FieldType.sound_ofKind name (.array scalar (pos_of_pinnedLength? pinned)), rfl⟩
  · cases made

/-- A name that resolves has a sound type of that name. -/
theorem Sound.resolve? (sound : registry.Sound) (resolved : registry.resolve? name = some type) :
    type.Sound ∧ type.name = name := by
  unfold Registry.resolve? at resolved
  split at resolved
  · rename_i type' found
    obtain rfl := Option.some.inj resolved
    obtain ⟨member, named⟩ := mem_of_lookup? found
    exact ⟨sound type' member, named⟩
  · exact sound.resolveArray? resolved

theorem resolve?_of_resolve (resolved : registry.resolve name = .ok type) :
    registry.resolve? name = some type := by
  unfold resolve at resolved
  split at resolved
  · rename_i found
    rw [found, Except.ok.inj resolved]
  · cases resolved

theorem Sound.add (sound : registry.Sound) (made : type.Sound) : (registry.add type).Sound := by
  intro other member
  rcases List.mem_cons.mp member with rfl | old
  · exact made
  · exact sound other old

/-! ## Calls that are accepted -/

theorem registerEnum_eq_ok {declaration : EnumDeclaration}
    (accepted : registry.registerEnum declaration = .ok next) :
    registry.resolve? declaration.name = none ∧ 0 < declaration.variants.length ∧
      declaration.variants.length ≤ maxVariants ∧
      next = registry.add (.ofKind declaration.name
        (.enumeration declaration.name declaration.variants.length)) := by
  rw [registerEnum, after, Call.answer_enumeration] at accepted
  by_cases taken : (registry.resolve? declaration.name).isSome
  · rw [if_pos taken] at accepted
    cases accepted
  · rw [if_neg taken] at accepted
    by_cases counted :
        declaration.variants.length = 0 ∨ maxVariants < declaration.variants.length
    · rw [if_pos counted] at accepted
      cases accepted
    · rw [if_neg counted] at accepted
      exact ⟨Option.not_isSome_iff_eq_none.mp taken, by omega, by omega,
        (Except.ok.inj accepted).symm⟩

theorem registerAlias_eq_ok {target : String}
    (accepted : registry.registerAlias name target = .ok next) :
    registry.resolve? name = none ∧ ∃ type, registry.resolve? target = some type ∧
      next = registry.add (.ofKind name type.kind) := by
  rw [registerAlias, after, Call.answer_typeAlias] at accepted
  by_cases taken : (registry.resolve? name).isSome
  · rw [if_pos taken] at accepted
    cases accepted
  · rw [if_neg taken] at accepted
    cases resolved : registry.resolve target with
    | error fault =>
        rw [resolved] at accepted
        cases accepted
    | ok type =>
        rw [resolved] at accepted
        exact ⟨Option.not_isSome_iff_eq_none.mp taken, type, resolve?_of_resolve resolved,
          (Except.ok.inj accepted).symm⟩

theorem Sound.registerEnum (sound : registry.Sound) {declaration : EnumDeclaration}
    (accepted : registry.registerEnum declaration = .ok next) : next.Sound := by
  obtain ⟨-, some, few, rfl⟩ := registerEnum_eq_ok accepted
  exact sound.add (FieldType.sound_ofKind _ (.scalar (.enumeration some few)))

theorem Sound.registerAlias (sound : registry.Sound) {target : String}
    (accepted : registry.registerAlias name target = .ok next) : next.Sound := by
  obtain ⟨-, type, resolved, rfl⟩ := registerAlias_eq_ok accepted
  exact sound.add (FieldType.sound_ofKind name (sound.resolve? resolved).1.kind)

theorem Reachable.sound (reachable : registry.Reachable) : registry.Sound := by
  induction reachable with
  | empty => exact fun type member => absurd member List.not_mem_nil
  | standard => exact sound_standard
  | enumeration before accepted ih => exact ih.registerEnum accepted
  | typeAlias before accepted ih => exact ih.registerAlias accepted

end Registry

end PackedTables
