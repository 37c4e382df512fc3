import PackedTables.Proofs.Schema.Sound
import PackedTables.Proofs.Text.Numeral
import PackedTables.Proofs.Types.WellFormed

/-!
# Names that resolve

A name resolves when it is registered, or when it is put together of a registered name of fixed
width and a suffix: brackets with nothing between them, or with a length of sixty-four bits.  A name
has at most one such reading, as the suffix starts at its last opening bracket.
-/

namespace PackedTables

/-! ## Lengths between brackets -/

/-- What can stand between the brackets of an array name, and the length that it pins. -/
inductive LengthText : List Char → Option Nat → Prop
  | open : LengthText [] none
  | pinned {sign digits : List Char} : sign = [] ∨ sign = ['+'] → digits ≠ [] →
      (∀ c ∈ digits, Numeral.IsDigit c) → 1 ≤ Numeral.decimalValue digits →
      Numeral.decimalValue digits ≤ 2 ^ 64 - 1 →
      LengthText (sign ++ digits) (some (Numeral.decimalValue digits))

namespace Registry

theorem pinnedLength?_eq_some_iff {digits : List Char} {length : Option Nat} :
    pinnedLength? digits = some length ↔ LengthText digits length := by
  constructor
  · intro read
    unfold pinnedLength? at read
    split at read
    · rename_i empty
      obtain rfl := List.isEmpty_iff.mp empty
      obtain rfl := Option.some.inj read
      exact .open
    · obtain ⟨value, kept, rfl⟩ := Option.map_eq_some_iff.mp read
      obtain ⟨value_eq, positive⟩ := Option.filter_eq_some_iff.mp kept
      obtain ⟨sign, rest, rfl, signed, nonempty, each, rfl, bounded⟩ :=
        Numeral.unsigned?_eq_some_iff.mp value_eq
      exact .pinned signed nonempty each (of_decide_eq_true positive) bounded
  · intro text
    unfold pinnedLength?
    cases text with
    | «open» => rfl
    | @pinned sign rest signed nonempty each positive bounded =>
        have some : (sign ++ rest).isEmpty = false := by simp [nonempty]
        have read : Numeral.unsigned? Numeral.maxWord (sign ++ rest) =
            Option.some (Numeral.decimalValue rest) :=
          Numeral.unsigned?_eq_some_iff.mpr
            ⟨sign, rest, rfl, signed, nonempty, each, rfl, bounded⟩
        rw [some, read]
        simp [Nat.lt_of_lt_of_le Nat.zero_lt_one positive]

/-! ## The last bracket -/

/-- A suffix without another opening bracket is split off again. -/
theorem splitSuffix?_joined (element : String) {digits : List Char} (plain : '[' ∉ digits) :
    splitSuffix? (element ++ "[" ++ String.ofList digits ++ "]") = some (element, digits) := by
  have reversed : (element ++ "[" ++ String.ofList digits ++ "]").toList.reverse =
      ']' :: (digits.reverse ++ '[' :: element.toList.reverse) := by
    simp
  have inside : ∀ c ∈ digits.reverse, (c != '[') = true := by
    intro c member
    refine bne_iff_ne.mpr ?_
    rintro rfl
    exact plain (List.mem_reverse.mp member)
  unfold splitSuffix?
  rw [reversed]
  simp only
  rw [List.takeWhile_append_of_pos inside, List.dropWhile_append_of_pos inside]
  simp

theorem splitSuffix?_eq_some_iff {name element : String} {digits : List Char} :
    splitSuffix? name = some (element, digits) ↔
      name = element ++ "[" ++ String.ofList digits ++ "]" ∧ '[' ∉ digits := by
  constructor
  · intro split
    refine ⟨splitSuffix?_eq_some split, ?_⟩
    unfold splitSuffix? at split
    split at split
    · rename_i rest closed
      split at split
      · obtain ⟨-, rfl⟩ := Prod.mk.inj (Option.some.inj split)
        intro member
        have others := List.all_eq_true.mp (List.all_takeWhile (p := (· != '[')) (l := rest))
        exact bne_iff_ne.mp (others '[' (List.mem_reverse.mp member)) rfl
      · cases split
    · cases split
  · rintro ⟨rfl, plain⟩
    exact splitSuffix?_joined element plain

/-! ## Registered names -/

/-- A type that is registered under a name. -/
def Registers (registry : Registry) (name : String) (type : FieldType) : Prop :=
  type ∈ registry.types ∧ type.name = name

/-- A name of an array: a registered name of fixed width, and a suffix. -/
structure Suffixes (registry : Registry) (name elementName : String) (digits : List Char)
    (element : FieldType) (length : Option Nat) : Prop where
  text : name = elementName ++ "[" ++ String.ofList digits ++ "]"
  plain : '[' ∉ digits
  registered : registry.Registers elementName element
  fixed : element.isFixed = true
  length : LengthText digits length

variable {registry : Registry} {name : String} {type : FieldType}

/-- No name is registered twice. -/
def Distinct (registry : Registry) : Prop := (registry.types.map (·.name)).Nodup

theorem distinct_standard : standard.Distinct := by
  unfold Distinct
  decide +kernel

theorem Distinct.add (distinct : registry.Distinct) (free : registry.lookup? type.name = none) :
    (registry.add type).Distinct := by
  refine List.nodup_cons.mpr ⟨fun repeated => ?_, distinct⟩
  obtain ⟨other, member, same⟩ := List.mem_map.mp repeated
  have different := List.find?_eq_none.mp free other member
  exact different (beq_iff_eq.mpr same)

theorem Distinct.register {next : Registry} (distinct : registry.Distinct)
    (registration : Registration) (accepted : registry.register registration = .ok next) :
    next.Distinct := by
  obtain ⟨type, named, free, rfl⟩ := register_eq_ok accepted
  rw [← named] at free
  exact distinct.add (lookup?_eq_none_of_resolve? free)

theorem Reachable.distinct (reachable : registry.Reachable) : registry.Distinct := by
  induction reachable with
  | empty => exact List.nodup_nil
  | standard => exact distinct_standard
  | @enumeration registry next declaration before accepted ih =>
      exact ih.register (.enumeration declaration) accepted
  | @typeAlias registry next name target before accepted ih =>
      exact ih.register (.typeAlias name target) accepted

theorem Distinct.lookup?_eq_some_iff (distinct : registry.Distinct) :
    registry.lookup? name = some type ↔ registry.Registers name type :=
  find?_named_eq_some_iff distinct

theorem lookup?_eq_none_iff :
    registry.lookup? name = none ↔ ∀ type, ¬registry.Registers name type := by
  unfold lookup? Registers
  simp only [List.find?_eq_none, beq_iff_eq, not_and]

/-! ## Names of arrays -/

theorem Distinct.resolveArray?_eq_some_iff (distinct : registry.Distinct) :
    registry.resolveArray? name = some type ↔ ∃ elementName digits element length,
      registry.Suffixes name elementName digits element length ∧
        type = .ofKind name (.array element.kind length) := by
  simp only [resolveArray?, Option.bind_eq_bind, Option.bind_eq_some_iff]
  constructor
  · rintro ⟨⟨elementName, digits⟩, split, length, pinned, element, found, made⟩
    split at made
    · rename_i fixed
      obtain ⟨text, plain⟩ := splitSuffix?_eq_some_iff.mp split
      exact ⟨elementName, digits, element, length,
        ⟨text, plain, distinct.lookup?_eq_some_iff.mp found, fixed,
          pinnedLength?_eq_some_iff.mp pinned⟩, (Option.some.inj made).symm⟩
    · cases made
  · rintro ⟨elementName, digits, element, length, suffixes, rfl⟩
    refine ⟨(elementName, digits), splitSuffix?_eq_some_iff.mpr ⟨suffixes.text, suffixes.plain⟩,
      length, pinnedLength?_eq_some_iff.mpr suffixes.length, element,
      distinct.lookup?_eq_some_iff.mpr suffixes.registered, ?_⟩
    rw [if_pos suffixes.fixed]

/-- A name is put together in one way. -/
theorem Distinct.suffixes_unique (distinct : registry.Distinct) {elementName other : String}
    {digits digits' : List Char} {element element' : FieldType} {length length' : Option Nat}
    (first : registry.Suffixes name elementName digits element length)
    (second : registry.Suffixes name other digits' element' length') :
    elementName = other ∧ digits = digits' ∧ element = element' ∧ length = length' := by
  have split := splitSuffix?_eq_some_iff.mpr ⟨first.text, first.plain⟩
  have split' := splitSuffix?_eq_some_iff.mpr ⟨second.text, second.plain⟩
  obtain ⟨rfl, rfl⟩ := Prod.mk.inj (Option.some.inj (split.symm.trans split'))
  have found := distinct.lookup?_eq_some_iff.mpr first.registered
  have found' := distinct.lookup?_eq_some_iff.mpr second.registered
  have read := pinnedLength?_eq_some_iff.mpr first.length
  have read' := pinnedLength?_eq_some_iff.mpr second.length
  exact ⟨rfl, rfl, Option.some.inj (found.symm.trans found'),
    Option.some.inj (read.symm.trans read')⟩

/-- How a name can resolve: as itself, and only otherwise as an array. -/
theorem Distinct.resolve?_eq_some_iff (distinct : registry.Distinct) :
    registry.resolve? name = some type ↔ registry.Registers name type ∨
      (∀ other, ¬registry.Registers name other) ∧ ∃ elementName digits element length,
        registry.Suffixes name elementName digits element length ∧
          type = .ofKind name (.array element.kind length) := by
  unfold resolve?
  cases found : registry.lookup? name with
  | some other =>
      have here := distinct.lookup?_eq_some_iff.mp found
      constructor
      · rintro same
        exact .inl (Option.some.inj same ▸ here)
      · rintro (again | ⟨free, -⟩)
        · exact found.symm.trans (distinct.lookup?_eq_some_iff.mpr again)
        · exact absurd here (free other)
  | none =>
      have free := lookup?_eq_none_iff.mp found
      rw [← distinct.resolveArray?_eq_some_iff]
      constructor
      · exact fun made => .inr ⟨free, made⟩
      · rintro (here | ⟨-, made⟩)
        · exact absurd here (free type)
        · exact made

/-! ## Moods -/

namespace Moods

/-- The name with brackets comes first: once moods are known it is the name of their arrays. -/
def registrations : List Registration :=
  [.enumeration ⟨"Mood[]", ["calm"]⟩, .enumeration ⟨"Mood", ["calm", "wild"]⟩]

def singleType : FieldType := .ofKind "Mood[]" (.enumeration "Mood[]" 1)

theorem registers_single : (standard.attemptAll registrations).Registers "Mood[]" singleType :=
  ⟨List.mem_cons_of_mem _ List.mem_cons_self, rfl⟩

/-- An array of a type whose own name ends in a suffix. -/
theorem suffixes_single : (standard.attemptAll registrations).Suffixes "Mood[][+007]" "Mood[]"
    ['+', '0', '0', '7'] singleType (some 7) where
  text := rfl
  plain := by decide
  registered := registers_single
  fixed := rfl
  length := .pinned (.inr rfl) (List.cons_ne_nil '0' ['0', '7']) (by simp [Numeral.IsDigit])
    (by decide) (by decide)

end Moods

/-! ## Resolving -/

/--
A name resolves exactly when it is registered, or put together of a registered name of fixed width
and a suffix.  It is put together in at most one way, and then stands for an array, unless it is
registered: then it stands for what it was registered for.  Every other name is unknown.
-/
theorem resolve_grammar (reachable : registry.Reachable) (name : String) :
    ((∃ type, registry.resolve name = .ok type) ↔
        (∃ type, registry.Registers name type) ∨ ∃ elementName digits element length,
          registry.Suffixes name elementName digits element length) ∧
      (∀ type, registry.Registers name type → registry.resolve name = .ok type) ∧
      (∀ elementName digits element length,
        registry.Suffixes name elementName digits element length →
          (∀ type, ¬registry.Registers name type) →
            registry.resolve name = .ok (.ofKind name (.array element.kind length))) ∧
      (∀ elementName digits element length other digits' element' length',
        registry.Suffixes name elementName digits element length →
          registry.Suffixes name other digits' element' length' →
            elementName = other ∧ digits = digits' ∧ element = element' ∧ length = length') ∧
      ((∀ type, ¬registry.Registers name type) →
        (∀ elementName digits element length,
          ¬registry.Suffixes name elementName digits element length) →
            registry.resolve name = .error (.unknownType name none)) := by
  have distinct := reachable.distinct
  have resolves (type : FieldType) : registry.resolve name = .ok type ↔ _ :=
    resolve_eq_ok_iff.trans distinct.resolve?_eq_some_iff
  refine ⟨⟨?_, ?_⟩, fun type registered => (resolves type).mpr (.inl registered), ?_, ?_, ?_⟩
  · rintro ⟨type, resolved⟩
    rcases (resolves type).mp resolved with registered | ⟨-, _, _, _, _, suffixes, -⟩
    · exact .inl ⟨type, registered⟩
    · exact .inr ⟨_, _, _, _, suffixes⟩
  · rintro (⟨type, registered⟩ | ⟨elementName, digits, element, length, suffixes⟩)
    · exact ⟨type, (resolves type).mpr (.inl registered)⟩
    · by_cases free : ∀ other, ¬registry.Registers name other
      · exact ⟨_, (resolves _).mpr (.inr ⟨free, _, _, _, _, suffixes, rfl⟩)⟩
      · obtain ⟨other, registered⟩ := not_forall_not.mp free
        exact ⟨other, (resolves other).mpr (.inl registered)⟩
  · exact fun elementName digits element length suffixes free =>
      (resolves _).mpr (.inr ⟨free, _, _, _, _, suffixes, rfl⟩)
  · exact fun elementName digits element length other digits' element' length' first second =>
      distinct.suffixes_unique first second
  · intro free apart
    cases found : registry.resolve? name with
    | none =>
        unfold resolve
        rw [found]
    | some type =>
        rcases distinct.resolve?_eq_some_iff.mp found with
          registered | ⟨-, _, _, _, _, suffixes, -⟩
        · exact absurd registered (free type)
        · exact absurd suffixes (apart _ _ _ _)

/-- The name with brackets keeps its meaning, and has arrays as any name of fixed width has. -/
theorem resolve_grammar_moods :
    (standard.attemptAll Moods.registrations).resolve "Mood[]" = .ok Moods.singleType ∧
      (standard.attemptAll Moods.registrations).resolve "Mood[][+007]" =
        .ok (.ofKind "Mood[][+007]" (.array (.enumeration "Mood[]" 1) (some 7))) := by
  have reachable : (standard.attemptAll Moods.registrations).Reachable :=
    Reachable.standard.attemptAll Moods.registrations
  obtain ⟨-, registered, -, -, -⟩ := resolve_grammar reachable "Mood[]"
  obtain ⟨-, -, derived, -, -⟩ := resolve_grammar reachable "Mood[][+007]"
  refine ⟨registered _ Moods.registers_single, ?_⟩
  exact derived _ _ _ _ Moods.suffixes_single (lookup?_eq_none_iff.mp rfl)

end Registry

end PackedTables
