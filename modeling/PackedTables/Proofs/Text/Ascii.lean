import PackedTables.Proofs.Text.Identifier
import PackedTables.Proofs.Text.Order

/-!
# Texts of one byte a character

The bytes below one hundred and twenty-eight are characters by themselves.  Identifiers are made of
such characters, and none of theirs is zero.
-/

namespace PackedTables

namespace Utf8

theorem encodeChar_of_ascii {c : Char} (ascii : c.toNat < 0x80) :
    String.utf8EncodeChar c = [UInt8.ofNat c.toNat] :=
  if_pos (Nat.le_of_lt_succ ascii)

theorem toNat_ofNat_of_ascii {value : Nat} (ascii : value < 0x80) :
    (Char.ofNat value).toNat = value := by
  have valid : value.isValidChar := .inl (Nat.lt_trans ascii (by decide))
  unfold Char.ofNat
  rw [dif_pos valid]
  rfl

/-- Bytes that are characters by themselves are the bytes of the text that is read from them. -/
theorem encode_decodeLossy {bytes : Bytes} (ascii : ∀ byte ∈ bytes, byte.toNat < 0x80) :
    encode (decodeLossy bytes) = bytes := by
  rw [decodeLossy, lossyFrom_ascii bytes ascii, encode_eq_flatMap, String.toList_ofList]
  induction bytes with
  | nil => rfl
  | cons byte rest ih =>
      obtain ⟨here, there⟩ := List.forall_mem_cons.mp ascii
      have exact := toNat_ofNat_of_ascii here
      rw [List.map_cons, List.flatMap_cons, ih there, encodeChar_of_ascii (exact.symm ▸ here),
        exact, UInt8.ofNat_toNat]
      rfl

end Utf8

namespace Identifier

theorem Continues.range {c : Char} (continues : Continues c) : 0 < c.toNat ∧ c.toNat < 0x80 := by
  have ordered {first second : Char} (below : first ≤ second) : first.toNat ≤ second.toNat :=
    UInt32.le_iff_toNat_le.mp (Char.le_def.mp below)
  rcases continues with ((⟨least, greatest⟩ | ⟨least, greatest⟩) | rfl) | ⟨least, greatest⟩
  · exact ⟨Nat.lt_of_lt_of_le (by decide) (ordered least),
      Nat.lt_of_le_of_lt (ordered greatest) (by decide)⟩
  · exact ⟨Nat.lt_of_lt_of_le (by decide) (ordered least),
      Nat.lt_of_le_of_lt (ordered greatest) (by decide)⟩
  · decide
  · exact ⟨Nat.lt_of_lt_of_le (by decide) (ordered least),
      Nat.lt_of_le_of_lt (ordered greatest) (by decide)⟩

theorem Matches.range {text : String} (matched : Matches text) :
    ∀ byte ∈ Utf8.encode text, 0 < byte.toNat ∧ byte.toNat < 0x80 := by
  obtain ⟨head, tail, chars, starts, continues⟩ := matched
  intro byte member
  rw [Utf8.encode_eq_flatMap] at member
  obtain ⟨c, listed, inChar⟩ := List.mem_flatMap.mp member
  have range : 0 < c.toNat ∧ c.toNat < 0x80 := by
    rw [chars] at listed
    rcases List.mem_cons.mp listed with rfl | inTail
    · exact Continues.range (.inl starts)
    · exact (continues c inTail).range
  rw [Utf8.encodeChar_of_ascii range.2, List.mem_singleton] at inChar
  rw [inChar, UInt8.toNat_ofNat_of_lt' (Nat.lt_trans range.2 (by decide))]
  exact range

end Identifier

end PackedTables
