import PackedTables.Proofs.Types.Sound

/-!
# Growing registries

Names are registered one after another.  A name can be registered only while nothing resolves under
it, so what resolves keeps its type: a new name adds itself and the arrays of it, and hides nothing.
-/

namespace PackedTables

/-! ## Array names -/

namespace Registry

/-- A name that is split is put together again from its parts. -/
theorem splitSuffix?_eq_some {name element : String} {digits : List Char}
    (split : splitSuffix? name = some (element, digits)) :
    name = element ++ "[" ++ String.ofList digits ++ "]" := by
  unfold splitSuffix? at split
  split at split
  -- The name is read from its end, so its parts come back in reverse.
  · rename_i rest closed
    split at split
    · rename_i bracket before dropped
      obtain ⟨rfl, rfl⟩ := Prod.mk.inj (Option.some.inj split)
      have opening : bracket = '[' := by
        have stopped := List.head?_dropWhile_not (· != '[') rest
        rw [dropped] at stopped
        simpa using stopped
      have parts := List.takeWhile_append_dropWhile (p := (· != '[')) (l := rest)
      rw [dropped, opening] at parts
      have text := List.reverse_eq_iff.mp closed
      generalize List.takeWhile (· != '[') rest = inside at parts ⊢
      subst parts
      apply String.toList_inj.mp
      rw [text]
      simp
    · cases split
  · cases split

end Registry

/-- The type of a name that makes an array of a type. -/
def FieldType.array? (type : FieldType) (name : String) : Option FieldType := do
  let (elementName, digits) ← Registry.splitSuffix? name
  let length ← Registry.pinnedLength? digits
  if elementName = type.name ∧ type.isFixed = true then
    some (.ofKind name (.array type.kind length))
  else none

theorem FieldType.array?_eq_some {type array : FieldType} {name : String}
    (made : type.array? name = some array) :
    type.isFixed = true ∧ ∃ digits length, Registry.pinnedLength? digits = some length ∧
      name = type.name ++ "[" ++ String.ofList digits ++ "]" ∧
      array = .ofKind name (.array type.kind length) := by
  simp only [array?, Option.bind_eq_bind, Option.bind_eq_some_iff] at made
  obtain ⟨⟨elementName, digits⟩, split, length, pinned, made⟩ := made
  split at made
  · rename_i element
    obtain ⟨rfl, fixed⟩ := element
    exact ⟨fixed, digits, length, pinned, Registry.splitSuffix?_eq_some split,
      (Option.some.inj made).symm⟩
  · cases made

namespace Registry

variable {registry next last : Registry} {name : String} {type : FieldType}

/-! ## A new name -/

theorem lookup?_add (registry : Registry) (type : FieldType) (name : String) :
    (registry.add type).lookup? name =
      if type.name = name then some type else registry.lookup? name := by
  unfold lookup? add
  rw [List.find?_cons]
  by_cases here : type.name = name
  · simp [here]
  · rw [beq_eq_false_iff_ne.mpr here, if_neg here]

theorem lookup?_eq_none_of_resolve? (free : registry.resolve? name = none) :
    registry.lookup? name = none := by
  unfold resolve? at free
  split at free
  · cases free
  · assumption

/-- Besides the arrays from before there are those of the new type. -/
theorem resolveArray?_add (free : registry.lookup? type.name = none) (name : String) :
    (registry.add type).resolveArray? name =
      (registry.resolveArray? name).or (type.array? name) := by
  unfold resolveArray? FieldType.array?
  cases splitSuffix? name with
  | none => rfl
  | some parts =>
      obtain ⟨elementName, digits⟩ := parts
      cases pinned : pinnedLength? digits with
      | none => simp [pinned]
      | some length =>
          by_cases here : elementName = type.name
          · simp [pinned, lookup?_add, here, free]
          · have apart : ¬type.name = elementName := fun same => here same.symm
            simp [pinned, lookup?_add, here, apart]

/-- The new name has its type, and any other name the type from before, or else that of an array. -/
theorem resolve?_add (free : registry.lookup? type.name = none) (name : String) :
    (registry.add type).resolve? name =
      if type.name = name then some type else (registry.resolve? name).or (type.array? name) := by
  unfold resolve?
  rw [lookup?_add]
  by_cases here : type.name = name
  · simp [here]
  · cases registry.lookup? name with
    | some found => simp [here]
    | none => simp [here, resolveArray?_add free]

/-! ## Names that keep their types -/

/-- All names that resolve keep their types in the second registry. -/
def Keeps (registry next : Registry) : Prop :=
  ∀ name type, registry.resolve? name = some type → next.resolve? name = some type

theorem Keeps.refl (registry : Registry) : registry.Keeps registry := fun _ _ resolved => resolved

theorem Keeps.trans (first : registry.Keeps next) (second : next.Keeps last) :
    registry.Keeps last :=
  fun name type resolved => second name type (first name type resolved)

theorem keeps_add (free : registry.resolve? type.name = none) :
    registry.Keeps (registry.add type) := by
  intro name found resolved
  have apart : type.name ≠ name := by
    rintro rfl
    rw [free] at resolved
    cases resolved
  rw [resolve?_add (lookup?_eq_none_of_resolve? free), if_neg apart, resolved]
  rfl

theorem resolve_eq_ok_iff :
    registry.resolve name = .ok type ↔ registry.resolve? name = some type := by
  constructor
  · exact resolve?_of_resolve
  · intro resolved
    unfold resolve
    rw [resolved]

theorem resolve_congr (same : next.resolve? name = registry.resolve? name) :
    next.resolve name = registry.resolve name := by
  unfold resolve
  rw [same]

end Registry

/-! ## Registrations -/

/-- A name that is to be registered, and what for. -/
inductive Registration
  | enumeration (declaration : EnumDeclaration)
  | typeAlias (name target : String)
  deriving DecidableEq

def Registration.name : Registration → String
  | enumeration declaration => declaration.name
  | typeAlias name _ => name

def Registration.call : Registration → Registry.Call
  | enumeration declaration => .enumeration declaration
  | typeAlias name target => .typeAlias name target

namespace Registry

variable {registry next : Registry} {registration : Registration}

def register (registry : Registry) : Registration → Except Fault Registry
  | .enumeration declaration => registry.registerEnum declaration
  | .typeAlias name target => registry.registerAlias name target

/-- The registry that the call of a registration leaves, whatever the answer. -/
def attempt (registry : Registry) (registration : Registration) : Registry :=
  (registration.call.answer registry).2

def attemptAll (registry : Registry) (registrations : List Registration) : Registry :=
  registrations.foldl attempt registry

/-- A registration adds one type, under a name that did not resolve. -/
theorem register_eq_ok (accepted : registry.register registration = .ok next) :
    ∃ type : FieldType, type.name = registration.name ∧
      registry.resolve? registration.name = none ∧ next = registry.add type := by
  cases registration with
  | enumeration declaration =>
      obtain ⟨free, -, -, added⟩ := registerEnum_eq_ok accepted
      exact ⟨_, rfl, free, added⟩
  | typeAlias name target =>
      obtain ⟨free, type, -, added⟩ := registerAlias_eq_ok accepted
      exact ⟨_, rfl, free, added⟩

/-- A call inserts nothing before it can no longer be refused. -/
theorem answer_call (registration : Registration) (registry : Registry) :
    registration.call.answer registry =
      match registry.register registration with
      | .ok next => (.ok (), next)
      | .error fault => (.error fault, registry) := by
  cases registration with
  | enumeration declaration =>
      rw [register, registerEnum, after, Registration.call, Call.answer_enumeration]
      by_cases taken : (registry.resolve? declaration.name).isSome
      · rw [if_pos taken]
      · rw [if_neg taken]
        split <;> rfl
  | typeAlias name target =>
      rw [register, registerAlias, after, Registration.call, Call.answer_typeAlias]
      by_cases taken : (registry.resolve? name).isSome
      · rw [if_pos taken]
      · rw [if_neg taken]
        cases registry.resolve target <;> rfl

theorem attempt_of_ok (accepted : registry.register registration = .ok next) :
    registry.attempt registration = next := by
  rw [attempt, answer_call, accepted]

theorem attempt_of_error {fault : Fault} (refused : registry.register registration = .error fault) :
    registry.attempt registration = registry := by
  rw [attempt, answer_call, refused]

theorem keeps_attempt (registry : Registry) (registration : Registration) :
    registry.Keeps (registry.attempt registration) := by
  cases answered : registry.register registration with
  | error fault =>
      rw [attempt_of_error answered]
      exact .refl registry
  | ok next =>
      rw [attempt_of_ok answered]
      obtain ⟨type, named, free, rfl⟩ := register_eq_ok answered
      exact keeps_add (named ▸ free)

theorem keeps_attemptAll (registry : Registry) (registrations : List Registration) :
    registry.Keeps (registry.attemptAll registrations) := by
  induction registrations generalizing registry with
  | nil => exact .refl registry
  | cons registration rest ih =>
      exact (keeps_attempt registry registration).trans (ih (registry.attempt registration))

/-- A registration changes the meaning of its own name and of the arrays of it. -/
theorem changed_of_register (accepted : registry.register registration = .ok next) :
    ∃ type : FieldType, next.resolve registration.name = .ok type ∧
      ∀ name, next.resolve name ≠ registry.resolve name → name = registration.name ∨
        type.isFixed = true ∧ ∃ digits length, pinnedLength? digits = some length ∧
          name = registration.name ++ "[" ++ String.ofList digits ++ "]" := by
  obtain ⟨type, named, free, rfl⟩ := register_eq_ok accepted
  rw [← named] at free ⊢
  have added := resolve?_add (lookup?_eq_none_of_resolve? free)
  refine ⟨type, resolve_eq_ok_iff.mpr (by rw [added, if_pos rfl]), fun name changed => ?_⟩
  by_cases here : type.name = name
  · exact .inl here.symm
  · cases array : type.array? name with
    | none =>
        refine absurd (resolve_congr ?_) changed
        rw [added, if_neg here, array, Option.or_none]
    | some made =>
        obtain ⟨fixed, digits, length, pinned, joined, -⟩ := FieldType.array?_eq_some array
        exact .inr ⟨fixed, digits, length, pinned, joined⟩

end Registry

end PackedTables
