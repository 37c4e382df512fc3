import PackedTables.Bytes

/-!
# UTF-8

Strict reading refuses every byte string that is not the encoding of a text, so reading and
writing are inverse.  Lossy reading never fails: each maximal run of bytes that starts a character
and does not finish it becomes one replacement character.
-/

namespace PackedTables.Utf8

def encode (text : String) : Bytes := text.toByteArray.data.toList

def decode? (bytes : Bytes) : Option String := String.fromUTF8? ⟨bytes.toArray⟩

theorem decode?_encode (text : String) : decode? (encode text) = some text := by
  have same : (⟨(encode text).toArray⟩ : ByteArray) = text.toByteArray := by simp [encode]
  rw [decode?, same, String.fromUTF8?, dif_pos text.isValidUTF8]
  rfl

theorem encode_of_decode? {bytes : Bytes} {text : String} (read : decode? bytes = some text) :
    encode text = bytes := by
  unfold decode? String.fromUTF8? at read
  split at read
  · injection read with equal
    subst equal
    simp [encode, String.fromUTF8]
  · contradiction

theorem encode_injective {first second : String} (same : encode first = encode second) :
    first = second := by
  have read := decode?_encode second
  rw [← same, decode?_encode] at read
  exact Option.some.inj read

/-! ## Lossy reading -/

/-- A character begun: the bits so far, the bytes still owed, and the range of the next one. -/
structure Begun where
  value : Nat
  owed : Nat
  least : Nat
  greatest : Nat

def replacement : Char := Char.ofNat 0xFFFD

/-- A byte between two characters. -/
def lead (byte : Nat) : List Char × Option Begun :=
  if byte < 0x80 then ([Char.ofNat byte], none)
  else if byte < 0xC2 then ([replacement], none)
  else if byte < 0xE0 then ([], some ⟨byte - 0xC0, 1, 0x80, 0xBF⟩)
  else if byte < 0xF0 then
    ([], some ⟨byte - 0xE0, 2, if byte = 0xE0 then 0xA0 else 0x80, if byte = 0xED then 0x9F else 0xBF⟩)
  else if byte < 0xF5 then
    ([], some ⟨byte - 0xF0, 3, if byte = 0xF0 then 0x90 else 0x80, if byte = 0xF4 then 0x8F else 0xBF⟩)
  else ([replacement], none)

/-- One byte: the characters that it completes, and what is begun after it. -/
def step : Option Begun → Nat → List Char × Option Begun
  | none, byte => lead byte
  | some begun, byte =>
      if begun.least ≤ byte ∧ byte ≤ begun.greatest then
        let value := begun.value * 64 + (byte - 0x80)
        if begun.owed = 1 then ([Char.ofNat value], none)
        else ([], some ⟨value, begun.owed - 1, 0x80, 0xBF⟩)
      else
        let next := lead byte
        (replacement :: next.1, next.2)

def lossyFrom : Option Begun → Bytes → List Char
  | none, [] => []
  | some _, [] => [replacement]
  | begun, byte :: rest =>
      let next := step begun byte.toNat
      next.1 ++ lossyFrom next.2 rest

def decodeLossy (bytes : Bytes) : String := String.ofList (lossyFrom none bytes)

theorem lossyFrom_ascii (bytes : Bytes) (ascii : ∀ byte ∈ bytes, byte.toNat < 0x80) :
    lossyFrom none bytes = bytes.map fun byte => Char.ofNat byte.toNat := by
  induction bytes with
  | nil => rfl
  | cons byte rest ih =>
      have low := ascii byte (by simp)
      have others := ih fun byte inRest => ascii byte (by simp [inRest])
      simp [lossyFrom, step, lead, low, others]

end PackedTables.Utf8
