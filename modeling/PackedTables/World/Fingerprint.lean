import PackedTables.Bytes.Hex
import PackedTables.Bytes.Sha256

/-!
# Fingerprints

The digest of a byte string, as text.  Several parts are joined with the length of each in front of
it, so that where one ends is part of what is digested (`framed_injective`).
-/

namespace PackedTables

structure Fingerprint where
  text : String
  deriving DecidableEq

namespace Fingerprint

def ofBytes (bytes : Bytes) : Fingerprint := ⟨Hex.encode (Sha256.digest bytes)⟩

def lengthWidth : Nat := 8

def frame (part : Bytes) : Bytes := Bytes.bigEndian lengthWidth part.length ++ part

def framed (parts : List Bytes) : Bytes := parts.flatMap frame

def ofParts (parts : List Bytes) : Fingerprint := ofBytes (framed parts)

/-- Short enough for its length to be written in front of it. -/
def Framable (part : Bytes) : Prop := part.length < Bytes.capacity lengthWidth

theorem frame_append_injective {first second rest others : Bytes} (short : Framable first)
    (small : Framable second) (same : frame first ++ rest = frame second ++ others) :
    first = second ∧ rest = others := by
  unfold frame at same
  rw [List.append_assoc, List.append_assoc] at same
  obtain ⟨lengths, tails⟩ := List.append_inj same (by simp)
  have numbers := congrArg Bytes.number lengths
  rw [Bytes.number_bigEndian, Bytes.number_bigEndian, Nat.mod_eq_of_lt short,
    Nat.mod_eq_of_lt small] at numbers
  exact List.append_inj tails numbers

theorem framed_injective {parts others : List Bytes} (short : ∀ part ∈ parts, Framable part)
    (small : ∀ part ∈ others, Framable part) (same : framed parts = framed others) :
    parts = others := by
  induction parts generalizing others with
  | nil =>
      cases others with
      | nil => rfl
      | cons other rest =>
          have lengths := congrArg List.length same
          simp [framed, frame, lengthWidth] at lengths
          omega
  | cons part rest ih =>
      cases others with
      | nil =>
          have lengths := congrArg List.length same
          simp [framed, frame, lengthWidth] at lengths
      | cons other remaining =>
          obtain ⟨here, there⟩ := frame_append_injective (short part (by simp))
            (small other (by simp)) (by simpa [framed] using same)
          rw [here, ih (fun part member => short part (by simp [member]))
            (fun part member => small part (by simp [member])) there]

end Fingerprint

end PackedTables
