import PackedTables.Bytes
import PackedTables.Text.Numeral

/-!
# Hexadecimal text

Two lowercase digits a byte.  Reading also takes uppercase digits and refuses an odd count.
-/

namespace PackedTables.Hex

def digit (value : Nat) : Char := Nat.digitChar (value % 16)

def digits (byte : UInt8) : List Char := [digit (byte.toNat / 16), digit byte.toNat]

def encode (bytes : Bytes) : String := String.ofList (bytes.flatMap digits)

/-- The text of a whole word, with the customary mark in front. -/
def encodeMarked (bytes : Bytes) : String := "0x" ++ encode bytes

def decodeChars? : List Char → Option Bytes
  | [] => some []
  | [_] => none
  | high :: low :: rest => do
      let high ← Numeral.digitValue? high
      let low ← Numeral.digitValue? low
      let bytes ← decodeChars? rest
      return UInt8.ofNat (high * 16 + low) :: bytes

def decode? (text : String) : Option Bytes := decodeChars? text.toList

theorem digitValue?_digit (value : Nat) : Numeral.digitValue? (digit value) = some (value % 16) := by
  have small : value % 16 < 16 := Nat.mod_lt _ (by decide)
  unfold digit
  generalize value % 16 = residue at small
  revert residue
  decide

theorem decodeChars?_flatMap (bytes : Bytes) :
    decodeChars? (bytes.flatMap digits) = some bytes := by
  induction bytes with
  | nil => rfl
  | cons byte rest ih =>
      have whole : byte.toNat / 16 % 16 * 16 + byte.toNat % 16 = byte.toNat := by
        have := byte.toNat_lt
        omega
      simp only [List.flatMap_cons, digits, List.cons_append, List.nil_append, decodeChars?,
        digitValue?_digit, ih, Option.bind_eq_bind, Option.bind_some, Option.pure_def, whole,
        UInt8.ofNat_toNat]

/-- Reading gives back what was written, so equal texts come from equal bytes. -/
theorem decode?_encode (bytes : Bytes) : decode? (encode bytes) = some bytes := by
  simp [decode?, encode, decodeChars?_flatMap]

end PackedTables.Hex
