import PackedTables.Proofs.Types.Sound

/-!
# Shapes of kinds

The number of a type tells its kind up to two things: the range of an enumeration, which it takes
for a number of one byte, and the count of elements that an array must have.
-/

namespace PackedTables

namespace Kind

/-- What is left of a kind without its range and its count. -/
def shape : Kind → Kind
  | .enumeration _ _ => .uint 8
  | .array element _ => .array element.shape none
  | kind => kind

/-- How many numbers an unsigned cell of the kind can be, or an element that is one. -/
def limit : Kind → Nat
  | .uint bits => 2 ^ bits
  | .enumeration _ variants => variants
  | .array element _ => element.limit
  | _ => 0

def count? : Kind → Option Nat
  | .array _ length => length
  | _ => none

/-- The kind that a number below ninety-eight stands for. -/
def scalarOf (id : Nat) : Kind :=
  if id < 32 then .uint (8 * (id + 1))
  else if id < 64 then .int (8 * (id - 31))
  else if id < 96 then .fixedBytes (id - 63)
  else if id = 96 then .bool
  else .address

def shapeOf (id : Nat) : Kind :=
  if id < 98 then scalarOf id
  else if id < 196 then .array (scalarOf (id - 98)) none
  else if id = 196 then .bytes
  else .string

variable {kind other : Kind}

theorem Scalar.width_shape (scalar : kind.Scalar) : kind.shape.width = kind.width := by
  cases scalar <;> rfl

theorem Sound.width_shape (sound : kind.Sound) : kind.shape.width = kind.width := by
  cases sound with
  | scalar scalar => exact scalar.width_shape
  | bytes => rfl
  | string => rfl
  | array scalar counted => rfl

/-- The number of a scalar kind gives its shape again. -/
theorem Scalar.typeId?_eq (scalar : kind.Scalar) :
    ∃ id, id < 98 ∧ kind.typeId? = some (UInt8.ofNat id) ∧ scalarOf id = kind.shape := by
  cases scalar with
  | bool => exact ⟨96, by decide, rfl, rfl⟩
  | @uint count some few =>
      refine ⟨count - 1, by omega, ?_, ?_⟩
      · have whole : 8 * count / 8 = count := by omega
        rw [typeId?, whole, if_neg (by omega)]
      · rw [scalarOf, if_pos (by omega), Nat.sub_add_cancel some]
        rfl
  | @int count some few =>
      refine ⟨32 + count - 1, by omega, ?_, ?_⟩
      · have whole : 8 * count / 8 = count := by omega
        rw [typeId?, whole]
      · have back : 32 + count - 1 - 31 = count := by omega
        rw [scalarOf, if_neg (by omega), if_pos (by omega), back]
        rfl
  | @fixedBytes length some few =>
      refine ⟨64 + length - 1, by omega, ?_, ?_⟩
      · have fits : 64 + length ≤ Numeral.maxWord := by
          unfold Numeral.maxWord
          omega
        rw [typeId?, if_pos fits]
      · have back : 64 + length - 1 - 63 = length := by omega
        rw [scalarOf, if_neg (by omega), if_neg (by omega), if_pos (by omega), back]
        rfl
  | address => exact ⟨97, by decide, rfl, rfl⟩
  | enumeration some few => exact ⟨0, by decide, rfl, rfl⟩

theorem Sound.typeId?_eq (sound : kind.Sound) :
    ∃ id, id < 198 ∧ kind.typeId? = some (UInt8.ofNat id) ∧ shapeOf id = kind.shape := by
  cases sound with
  | scalar scalar =>
      obtain ⟨id, small, number, shaped⟩ := scalar.typeId?_eq
      exact ⟨id, by omega, number, by rw [shapeOf, if_pos small, shaped]⟩
  | bytes => exact ⟨196, by decide, rfl, rfl⟩
  | string => exact ⟨197, by decide, rfl, rfl⟩
  | @array element length scalar counted =>
      obtain ⟨id, small, number, shaped⟩ := scalar.typeId?_eq
      have value : (UInt8.ofNat id).toNat = id := by
        rw [UInt8.toNat_ofNat']
        omega
      refine ⟨98 + id, by omega, ?_, ?_⟩
      · rw [typeId?, number]
        simp only
        rw [value, if_pos (by omega), UInt8.ofNat_add]
        rfl
      · rw [shapeOf, if_neg (by omega), if_pos (by omega), Nat.add_sub_cancel_left, shaped, shape]

/-- Kinds of one number have one shape. -/
theorem Sound.shape_eq_of_typeId? (sound : kind.Sound) (sound' : other.Sound)
    (same : kind.typeId? = other.typeId?) : kind.shape = other.shape := by
  obtain ⟨id, small, number, shaped⟩ := sound.typeId?_eq
  obtain ⟨id', small', number', shaped'⟩ := sound'.typeId?_eq
  rw [number, number'] at same
  have values := congrArg UInt8.toNat (Option.some.inj same)
  rw [UInt8.toNat_ofNat', UInt8.toNat_ofNat', Nat.mod_eq_of_lt (by omega),
    Nat.mod_eq_of_lt (by omega)] at values
  rw [← shaped, ← shaped', values]

end Kind

theorem FieldType.Sound.shape_eq {type other : FieldType} (sound : type.Sound)
    (sound' : other.Sound) (same : type.typeId = other.typeId) :
    type.kind.shape = other.kind.shape := by
  obtain ⟨id, -, number, -⟩ := sound.kind.typeId?_eq
  obtain ⟨id', -, number', -⟩ := sound'.kind.typeId?_eq
  rw [sound.typeId_eq, sound'.typeId_eq, number, number'] at same
  apply sound.kind.shape_eq_of_typeId? sound'.kind
  rw [number, number']
  exact congrArg some same

end PackedTables
