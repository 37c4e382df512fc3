import PackedTables.Proofs.Bytes.Pieces
import PackedTables.Text.Utf8

/-!
# The order of texts

Texts in the order of their code points are in the order of their bytes.  A character of more bytes
starts with a higher one, and characters of equally many bytes are ordered as the numbers that the
bytes denote.
-/

namespace PackedTables

namespace Bytes

/-- Of two byte strings of one length the one with the lower number is below, whatever follows. -/
theorem append_lt_of_number_lt {first second : Bytes} (same : first.length = second.length)
    (less : number first < number second) (rest others : Bytes) :
    first ++ rest < second ++ others := by
  induction first generalizing second with
  | nil =>
      obtain rfl := List.length_eq_zero_iff.mp same.symm
      exact absurd less (Nat.lt_irrefl _)
  | cons byte bytes ih =>
      cases second with
      | nil => cases same
      | cons other others =>
          have lengths : bytes.length = others.length := Nat.succ.inj same
          have small := number_lt bytes
          have tiny := number_lt others
          rw [number_cons, number_cons, lengths] at less
          rw [lengths] at small
          rw [List.cons_append, List.cons_append, List.cons_lt_cons_iff]
          rcases Nat.lt_trichotomy byte.toNat other.toNat with below | equal | above
          · exact .inl (UInt8.lt_iff_toNat_lt.mpr below)
          · rw [equal] at less
            exact .inr ⟨UInt8.toNat_inj.mp equal, ih lengths (Nat.lt_of_add_lt_add_left less)⟩
          · have step := Nat.mul_le_mul_right (capacity others.length) above
            rw [Nat.succ_mul] at step
            omega

/-- A lower first byte decides, whatever follows. -/
theorem cons_lt_cons_of_lt {small large : Nat} (lower : small < large) (fits : large < 256)
    (rest others : Bytes) : UInt8.ofNat small :: rest < UInt8.ofNat large :: others := by
  refine List.cons_lt_cons_iff.mpr (.inl (UInt8.lt_iff_toNat_lt.mpr ?_))
  rw [UInt8.toNat_ofNat', UInt8.toNat_ofNat']
  omega

end Bytes

namespace Utf8

theorem encode_eq_flatMap (text : String) :
    encode text = text.toList.flatMap String.utf8EncodeChar := by
  have bytes := String.toByteArray_ofList (l := text.toList)
  rw [String.ofList_toList] at bytes
  rw [encode, bytes, List.utf8Encode]
  simp

/-- Of two characters the lower one has the lower bytes, whatever follows. -/
theorem char_append_lt {first second : Char} (below : first < second) (rest others : Bytes) :
    String.utf8EncodeChar first ++ rest < String.utf8EncodeChar second ++ others := by
  have less : first.val.toNat < second.val.toNat :=
    UInt32.lt_iff_toNat_lt.mp (Char.lt_def.mp below)
  have bound : second.val.toNat < 1114112 := by
    rcases second.valid with low | high
    · exact Nat.lt_trans low (by decide)
    · exact high.2
  unfold String.utf8EncodeChar
  generalize first.val.toNat = lower at less ⊢
  generalize second.val.toNat = upper at less bound ⊢
  have quarter (value : Nat) : value / 4096 = value / 64 / 64 := by omega
  have eighth (value : Nat) : value / 262144 = value / 64 / 64 / 64 := by omega
  simp only [quarter, eighth]
  -- One case for each pair of lengths.  A longer character never is the lower one.
  split
  · split
    · exact Bytes.cons_lt_cons_of_lt less (by omega) _ _
    · (repeat' split) <;> exact Bytes.cons_lt_cons_of_lt (by omega) (by omega) _ _
  · split
    · split
      · omega
      · split
        · refine Bytes.append_lt_of_number_lt (by rfl) ?_ rest others
          simp (disch := omega) only [Bytes.number, List.foldl_cons, List.foldl_nil,
            UInt8.toNat_ofNat', Nat.mod_eq_of_lt]
          omega
        · split <;> exact Bytes.cons_lt_cons_of_lt (by omega) (by omega) _ _
    · split
      · split
        · omega
        · split
          · omega
          · split
            · refine Bytes.append_lt_of_number_lt (by rfl) ?_ rest others
              simp (disch := omega) only [Bytes.number, List.foldl_cons, List.foldl_nil,
                UInt8.toNat_ofNat', Nat.mod_eq_of_lt]
              omega
            · exact Bytes.cons_lt_cons_of_lt (by omega) (by omega) _ _
      · split
        · omega
        · split
          · omega
          · split
            · omega
            · refine Bytes.append_lt_of_number_lt (by rfl) ?_ rest others
              simp (disch := omega) only [Bytes.number, List.foldl_cons, List.foldl_nil,
                UInt8.toNat_ofNat', Nat.mod_eq_of_lt]
              omega

theorem chars_lt {first second : List Char} (below : first < second) :
    first.flatMap String.utf8EncodeChar < second.flatMap String.utf8EncodeChar := by
  induction first generalizing second with
  | nil =>
      cases second with
      | nil => exact absurd below (List.lt_irrefl _)
      | cons char rest =>
          have nonempty : 0 < (String.utf8EncodeChar char).length := by
            rw [String.length_utf8EncodeChar]
            exact Char.utf8Size_pos char
          rw [List.flatMap_cons]
          cases spelled : String.utf8EncodeChar char with
          | nil =>
              rw [spelled] at nonempty
              exact absurd nonempty (Nat.lt_irrefl _)
          | cons byte bytes => exact List.nil_lt_cons _ _
  | cons char rest ih =>
      cases second with
      | nil => exact absurd below (List.not_lt_nil _)
      | cons other others =>
          rw [List.flatMap_cons, List.flatMap_cons]
          rcases List.cons_lt_cons_iff.mp below with lower | ⟨rfl, later⟩
          · exact char_append_lt lower _ _
          · exact List.append_left_lt (ih later)

/-- The lower text has the lower bytes. -/
theorem encode_lt {first second : String} (below : first < second) :
    encode first < encode second := by
  rw [encode_eq_flatMap, encode_eq_flatMap]
  exact chars_lt (String.lt_iff.mp below)

end Utf8

end PackedTables
