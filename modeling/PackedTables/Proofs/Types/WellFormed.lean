import PackedTables.Proofs.Types.Growth
import PackedTables.Proofs.Types.Shape

/-!
# Well-formed types

What holds of every type that a registry gives out, whatever was registered in it: its width, its
standard form and its number are those of its kind, and each number of the kind lies in its range.
So no step on the way to the number of a type leaves its own range.
-/

namespace PackedTables

namespace Kind

def isArray : Kind → Bool
  | array _ _ => true
  | _ => false

/-- Each number of a kind lies in its range, and an array has elements of fixed width. -/
def InRange : Kind → Prop
  | uint bits => 8 ∣ bits ∧ 8 ≤ bits ∧ bits ≤ 256
  | int bits => 8 ∣ bits ∧ 8 ≤ bits ∧ bits ≤ 256
  | fixedBytes length => 1 ≤ length ∧ length ≤ 32
  | enumeration _ variants => 1 ≤ variants ∧ variants ≤ 256
  | array element length =>
      element.isArray = false ∧ element.width.isFixed = true ∧ element.InRange ∧
        ∀ count, length = some count → 1 ≤ count
  | _ => True

/-- The number of a kind among all integers, where no step can leave its range.  An enumeration has
that of the unsigned numbers of one byte. -/
def number : Kind → Int
  | uint bits => bits / 8 - 1
  | int bits => 32 + bits / 8 - 1
  | fixedBytes length => 64 + length - 1
  | bool => 96
  | address => 97
  | enumeration _ _ => 0
  | array element _ => 98 + number element
  | bytes => 196
  | string => 197

variable {kind : Kind}

/-! ## Ranges -/

theorem Scalar.inRange (scalar : kind.Scalar) : kind.InRange := by
  cases scalar with
  | bool => trivial
  | @uint count some few => exact ⟨⟨count, rfl⟩, by omega, by omega⟩
  | @int count some few => exact ⟨⟨count, rfl⟩, by omega, by omega⟩
  | fixedBytes some few => exact ⟨some, few⟩
  | address => trivial
  | enumeration some few => exact ⟨some, few⟩

theorem Scalar.isArray_eq (scalar : kind.Scalar) : kind.isArray = false := by
  cases scalar <;> rfl

theorem Sound.inRange (sound : kind.Sound) : kind.InRange := by
  cases sound with
  | scalar scalar => exact scalar.inRange
  | bytes => trivial
  | string => trivial
  | array scalar counted =>
      obtain ⟨width, fixed, -, -⟩ := scalar.width_eq
      have sized : (Kind.width _).isFixed = true := congrArg Width.isFixed fixed
      exact ⟨scalar.isArray_eq, sized, scalar.inRange, counted⟩

/-! ## Numbers -/

theorem number_shape (kind : Kind) : kind.shape.number = kind.number := by
  induction kind with
  | array element length ih => exact congrArg (98 + ·) ih
  | _ => rfl

theorem number_scalarOf {id : Nat} (small : id < 98) : (scalarOf id).number = id := by
  unfold scalarOf
  split
  · rw [number]
    omega
  · split
    · rw [number]
      omega
    · split
      · rw [number]
        omega
      · split
        · rw [number]
          omega
        · rw [number]
          omega

theorem number_shapeOf {id : Nat} (small : id < 198) : (shapeOf id).number = id := by
  unfold shapeOf
  split
  · rename_i scalar
    exact number_scalarOf scalar
  · split
    · rw [number, number_scalarOf (by omega)]
      omega
    · split
      · rw [number]
        omega
      · rw [number]
        omega

/-- The number of a sound kind is worked out in range, and loses nothing in one byte. -/
theorem Sound.typeId?_eq_number (sound : kind.Sound) :
    ∃ id, kind.typeId? = some id ∧ (id.toNat : Int) = kind.number ∧ id.toNat ≤ 197 := by
  obtain ⟨id, small, numbered, shaped⟩ := sound.typeId?_eq
  have value : (UInt8.ofNat id).toNat = id := by
    rw [UInt8.toNat_ofNat']
    omega
  refine ⟨UInt8.ofNat id, numbered, ?_, by omega⟩
  rw [value, ← number_shape, ← shaped, number_shapeOf small]

end Kind

namespace FieldType

/-- What can be relied on in a type that was asked for under a name. -/
structure WellFormed (name : String) (type : FieldType) : Prop where
  name : type.name = name
  width : type.width = type.kind.width
  narrow : ∀ bytes, type.width = .fixed bytes → 1 ≤ bytes ∧ bytes ≤ 32
  standardFixed : ∀ bytes, type.width = .fixed bytes → type.standard = List.replicate bytes 0
  standardVarying : type.width = .varying → type.standard = []
  kind : type.kind.InRange
  typeId : type.kind.typeId? = some type.typeId
  number : (type.typeId.toNat : Int) = type.kind.number
  numberSmall : type.typeId.toNat ≤ 197

theorem Sound.wellFormed {type : FieldType} (sound : type.Sound) : type.WellFormed type.name := by
  obtain ⟨id, numbered, exact, small⟩ := sound.kind.typeId?_eq_number
  have typeId : type.typeId = id := by
    rw [sound.typeId_eq, numbered]
    rfl
  have standard := sound.standard_eq
  rw [← sound.width_eq] at standard
  refine ⟨rfl, sound.width_eq, fun bytes fixed => ?_, fun bytes fixed => ?_, fun varying => ?_,
    sound.kind.inRange, typeId ▸ numbered, typeId ▸ exact, typeId ▸ small⟩
  · rw [sound.width_eq] at fixed
    obtain ⟨width, same, positive, short⟩ := (sound.kind.scalar_of_fixed fixed).width_eq
    obtain rfl := Width.fixed.inj (fixed.symm.trans same)
    exact ⟨positive, short⟩
  · rw [standard, fixed, standardOf]
  · rw [standard, varying, standardOf]

end FieldType

namespace Registry

variable {registry : Registry} {name : String} {type : FieldType}

theorem Reachable.attempt (reachable : registry.Reachable) (registration : Registration) :
    (registry.attempt registration).Reachable := by
  cases answered : registry.register registration with
  | error fault =>
      rw [attempt_of_error answered]
      exact reachable
  | ok next =>
      rw [attempt_of_ok answered]
      cases registration with
      | enumeration declaration => exact reachable.enumeration answered
      | typeAlias name target => exact reachable.typeAlias answered

theorem Reachable.attemptAll (reachable : registry.Reachable) (registrations : List Registration) :
    (registry.attemptAll registrations).Reachable := by
  induction registrations generalizing registry with
  | nil => exact reachable
  | cons registration rest ih => exact ih (reachable.attempt registration)

/-! ## Weeks of moods -/

namespace Week

/-- The second registration is refused, as it has no variants. -/
def registrations : List Registration :=
  [.enumeration ⟨"Mood", ["calm", "wild"]⟩, .enumeration ⟨"None", []⟩, .typeAlias "Day" "Mood",
    .typeAlias "Week" "Day[7]"]

def weekType : FieldType := .ofKind "Week" (.array (.enumeration "Mood" 2) (some 7))

theorem resolve_week : (empty.attemptAll registrations).resolve "Week" = .ok weekType := rfl

end Week

/-- Whatever is registered, accepted or refused, a name that resolves has a well-formed type. -/
theorem wellFormed_of_resolve (reachable : registry.Reachable) (registrations : List Registration)
    (resolved : (registry.attemptAll registrations).resolve name = .ok type) :
    type.WellFormed name := by
  have sound := (reachable.attemptAll registrations).sound
  obtain ⟨made, rfl⟩ := sound.resolve? (resolve?_of_resolve resolved)
  exact made.wellFormed

/-- An array of an alias, under a name of its own. -/
theorem wellFormed_of_resolve_week :
    (empty.attemptAll Week.registrations).resolve "Week" = .ok Week.weekType ∧
      Week.weekType.WellFormed "Week" :=
  ⟨Week.resolve_week, wellFormed_of_resolve .empty Week.registrations Week.resolve_week⟩

end Registry

end PackedTables
