import PackedTables.Text.Utf8
import PackedTables.World.Fingerprint

/-!
# Fingerprints that match

A fingerprint is the text of a digest, so fingerprints match exactly when digests do.  When those of
two lists of parts match, the lists are equal or their framed strings collide.
-/

namespace PackedTables

/-- Different messages of one digest. -/
def Sha256.Collision (message other : Bytes) : Prop :=
  message ≠ other ∧ digest message = digest other

instance (message other : Bytes) : Decidable (Sha256.Collision message other) :=
  inferInstanceAs (Decidable (_ ∧ _))

namespace Hex

theorem encode_injective {bytes others : Bytes} (same : encode bytes = encode others) :
    bytes = others := by
  have read := decode?_encode others
  rw [← same, decode?_encode] at read
  exact Option.some.inj read

theorem utf8Size_digit (value : Nat) : (digit value).utf8Size = 1 := by
  have small : value % 16 < 16 := Nat.mod_lt _ (by decide)
  unfold digit
  generalize value % 16 = residue at small
  revert residue
  decide

/-- Digits are characters of one byte each. -/
theorem length_utf8_encode (bytes : Bytes) :
    (Utf8.encode (encode bytes)).length = 2 * bytes.length := by
  have chars : Utf8.encode (encode bytes) =
      (bytes.flatMap digits).flatMap String.utf8EncodeChar := by
    simp [Utf8.encode, encode, List.utf8Encode]
  rw [chars]
  clear chars
  induction bytes with
  | nil => rfl
  | cons byte rest ih =>
      have here : ((digits byte).flatMap String.utf8EncodeChar).length = 2 := by
        simp [digits, utf8Size_digit]
      rw [List.flatMap_cons, List.flatMap_append, List.length_append, here, ih, List.length_cons]
      omega

end Hex

namespace Fingerprint

variable {parts others : List Bytes}

theorem ofBytes_eq_iff {bytes other : Bytes} :
    ofBytes bytes = ofBytes other ↔ Sha256.digest bytes = Sha256.digest other := by
  constructor
  · intro same
    exact Hex.encode_injective (congrArg text same)
  · intro same
    rw [ofBytes, ofBytes, same]

theorem ofParts_eq (short : ∀ part ∈ parts, Framable part) (small : ∀ part ∈ others, Framable part)
    (same : ofParts parts = ofParts others) :
    parts = others ∨ Sha256.Collision (framed parts) (framed others) := by
  by_cases equal : framed parts = framed others
  · exact .inl (framed_injective short small equal)
  · exact .inr ⟨equal, ofBytes_eq_iff.mp same⟩

theorem eq_of_texts {print other : Fingerprint}
    (same : Utf8.encode print.text = Utf8.encode other.text) : print = other := by
  cases print
  cases other
  exact congrArg mk (Utf8.encode_injective same)

/-- The text of a fingerprint is short. -/
theorem framable_text (bytes : Bytes) : Framable (Utf8.encode (ofBytes bytes).text) := by
  have length := Hex.length_utf8_encode (Sha256.digest bytes)
  rw [Sha256.length_digest] at length
  unfold Framable
  rw [ofBytes, length]
  decide

end Fingerprint

end PackedTables
