import PackedTables.Proofs.Record.Payload

/-!
# Truth values

Strictness matters to bytes that stand for truth values only.  Read leniently, bytes are what they
are when each of them that is above one is put down to one first, and then they are read strictly.
-/

namespace PackedTables

namespace Bytes

/-- A byte as it is written when it stands for a truth value. -/
def settle (byte : UInt8) : UInt8 := if 1 < byte then 1 else byte

theorem settle_eq_self_iff {byte : UInt8} : settle byte = byte ↔ ¬1 < byte := by
  unfold settle
  split
  · rename_i above
    exact iff_of_false (fun same => absurd above (same ▸ by decide)) (not_not_intro above)
  · rename_i below
    exact iff_of_true rfl below

theorem chunks_map (change : UInt8 → UInt8) {width : Nat} (positive : 0 < width) (bytes : Bytes) :
    chunks width positive (bytes.map change) =
      (chunks width positive bytes).map (List.map change) := by
  fun_induction chunks width positive bytes with
  | case1 bytes empty =>
      obtain rfl : bytes = [] := by simpa using empty
      exact chunks_nil positive
  | case2 bytes nonempty ih =>
      have some : (bytes.map change).isEmpty = false := by simpa using nonempty
      rw [chunks, some, if_neg (by decide), List.map_cons, List.map_take, ← ih, List.map_drop]

end Bytes

namespace Kind

/-- Kinds whose bytes each stand for a truth value. -/
def isTruth : Kind → Bool
  | .bool => true
  | .array .bool _ => true
  | _ => false

/-- Bytes of a kind as they are written. -/
def settled (kind : Kind) (bytes : Bytes) : Bytes :=
  if kind.isTruth then bytes.map Bytes.settle else bytes

variable {kind element : Kind} {length : Option Nat}

theorem length_settled (kind : Kind) (bytes : Bytes) :
    (kind.settled bytes).length = bytes.length := by
  unfold settled
  split
  · exact List.length_map _
  · rfl

theorem settled_of_ne (other : kind.isTruth = false) (bytes : Bytes) :
    kind.settled bytes = bytes := by
  rw [settled, other, if_neg (by decide)]

/-- Only truth values are read more freely when reading is not strict. -/
theorem read_eq_of_ne_bool (other : kind ≠ .bool) (strict : Bool) :
    kind.read strict = kind.read true := by
  cases kind with
  | bool => exact absurd rfl other
  | _ => rfl

theorem readBool_lenient (byte : UInt8) :
    readBool false byte = readBool true (Bytes.settle byte) := by
  unfold readBool Bytes.settle
  by_cases zero : byte = 0
  · subst zero
    rfl
  · by_cases one : byte = 1
    · subst one
      rfl
    · have above : 1 < byte := by
        rw [UInt8.lt_iff_toNat_lt]
        have nonzero : byte.toNat ≠ 0 := fun same => zero (UInt8.toNat_inj.mp same)
        have different : byte.toNat ≠ 1 := fun same => one (UInt8.toNat_inj.mp same)
        change 1 < byte.toNat
        omega
      rw [if_pos above, if_neg zero, if_neg one]
      rfl

theorem read_bool_lenient (bytes : Bytes) :
    Kind.bool.read false bytes = Kind.bool.read true (bytes.map Bytes.settle) := by
  cases bytes with
  | nil => rfl
  | cons byte rest => exact readBool_lenient byte

theorem readArray_bool_lenient (length : Option Nat) (bytes : Bytes) :
    readArray false .bool length bytes = readArray true .bool length (bytes.map Bytes.settle) := by
  have fixed : Kind.bool.width = .fixed 1 := rfl
  have items : (Bytes.chunks 1 Nat.one_pos bytes).mapM (Kind.bool.read false) =
      (Bytes.chunks 1 Nat.one_pos (bytes.map Bytes.settle)).mapM (Kind.bool.read true) := by
    rw [Bytes.chunks_map, List.mapM_map]
    exact congrArg (List.mapM · _) (funext read_bool_lenient)
  rw [readArray_eq fixed Nat.one_pos, readArray_eq fixed Nat.one_pos, readItems, readItems, items,
    List.length_map]

theorem readArray_eq_of_ne_bool (other : element ≠ .bool) (strict : Bool) :
    readArray strict element length = readArray true element length := by
  funext bytes
  unfold readArray readItems
  rw [read_eq_of_ne_bool other strict]

/-- To read leniently is to read strictly what the bytes are written as. -/
theorem readStored_lenient (kind : Kind) (bytes : Bytes) :
    kind.readStored false bytes = kind.readStored true (kind.settled bytes) := by
  cases kind with
  | bool => exact read_bool_lenient bytes
  | array element length =>
      change readArray false element length bytes = readArray true element length _
      by_cases truth : element = .bool
      · subst truth
        exact readArray_bool_lenient length bytes
      · have none : (Kind.array element length).isTruth = false := by
          cases element with
          | bool => exact absurd rfl truth
          | _ => rfl
        rw [settled_of_ne none, readArray_eq_of_ne_bool truth]
  | _ => rfl

/-- What spells a cell spells it as it is written, too. -/
theorem Sound.spells_settled {cell : Cell} {bytes : Bytes} (sound : kind.Sound)
    (width : ∀ count, kind.width = .fixed count → bytes.length = count)
    (spelled : kind.Spells cell bytes) : kind.Spells cell (kind.settled bytes) := by
  refine sound.spells_of_readStored
    (fun count fixed => (length_settled kind bytes).trans (width count fixed)) ?_
  rw [← readStored_lenient]
  exact sound.readStored_of_spells spelled false

end Kind

end PackedTables
