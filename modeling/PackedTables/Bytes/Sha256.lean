import PackedTables.Bytes

/-!
# SHA-256

The digest of a byte string: the padded message is absorbed in blocks of sixty-four bytes, each
of which drives sixty-four rounds over eight lanes of thirty-two bits.
-/

namespace PackedTables.Sha256

structure Lanes where
  a : UInt32
  b : UInt32
  c : UInt32
  d : UInt32
  e : UInt32
  f : UInt32
  g : UInt32
  h : UInt32

def start : Lanes :=
  ⟨0x6a09e667, 0xbb67ae85, 0x3c6ef372, 0xa54ff53a, 0x510e527f, 0x9b05688c, 0x1f83d9ab, 0x5be0cd19⟩

/-- The fractional parts of the cube roots of the first sixty-four primes. -/
def constants : List UInt32 :=
  [0x428a2f98, 0x71374491, 0xb5c0fbcf, 0xe9b5dba5, 0x3956c25b, 0x59f111f1, 0x923f82a4, 0xab1c5ed5,
   0xd807aa98, 0x12835b01, 0x243185be, 0x550c7dc3, 0x72be5d74, 0x80deb1fe, 0x9bdc06a7, 0xc19bf174,
   0xe49b69c1, 0xefbe4786, 0x0fc19dc6, 0x240ca1cc, 0x2de92c6f, 0x4a7484aa, 0x5cb0a9dc, 0x76f988da,
   0x983e5152, 0xa831c66d, 0xb00327c8, 0xbf597fc7, 0xc6e00bf3, 0xd5a79147, 0x06ca6351, 0x14292967,
   0x27b70a85, 0x2e1b2138, 0x4d2c6dfc, 0x53380d13, 0x650a7354, 0x766a0abb, 0x81c2c92e, 0x92722c85,
   0xa2bfe8a1, 0xa81a664b, 0xc24b8b70, 0xc76c51a3, 0xd192e819, 0xd6990624, 0xf40e3585, 0x106aa070,
   0x19a4c116, 0x1e376c08, 0x2748774c, 0x34b0bcb5, 0x391c0cb3, 0x4ed8aa4a, 0x5b9cca4f, 0x682e6ff3,
   0x748f82ee, 0x78a5636f, 0x84c87814, 0x8cc70208, 0x90befffa, 0xa4506ceb, 0xbef9a3f7, 0xc67178f2]

def rotateRight (word : UInt32) (count : UInt32) : UInt32 :=
  (word >>> count) ||| (word <<< (32 - count))

def mix (word : UInt32) (first second shifted : UInt32) : UInt32 :=
  rotateRight word first ^^^ rotateRight word second ^^^ (word >>> shifted)

def stir (word : UInt32) (first second third : UInt32) : UInt32 :=
  rotateRight word first ^^^ rotateRight word second ^^^ rotateRight word third

/-- One more word of the schedule; the newest word stands first. -/
def extend (newest : List UInt32) : List UInt32 :=
  let word := mix (newest.getD 1 0) 17 19 10 + newest.getD 6 0 +
    mix (newest.getD 14 0) 7 18 3 + newest.getD 15 0
  word :: newest

def extendBy : Nat → List UInt32 → List UInt32
  | 0, newest => newest
  | count + 1, newest => extendBy count (extend newest)

def words (block : Bytes) : List UInt32 :=
  (block.chunks 4 (by decide)).map fun bytes => UInt32.ofNat bytes.number

def schedule (block : Bytes) : List UInt32 := (extendBy 48 (words block).reverse).reverse

def round (lanes : Lanes) (constant word : UInt32) : Lanes :=
  let choice := (lanes.e &&& lanes.f) ^^^ (~~~lanes.e &&& lanes.g)
  let majority := (lanes.a &&& lanes.b) ^^^ (lanes.a &&& lanes.c) ^^^ (lanes.b &&& lanes.c)
  let first := lanes.h + stir lanes.e 6 11 25 + choice + constant + word
  let second := stir lanes.a 2 13 22 + majority
  ⟨first + second, lanes.a, lanes.b, lanes.c, lanes.d + first, lanes.e, lanes.f, lanes.g⟩

def Lanes.add (x y : Lanes) : Lanes :=
  ⟨x.a + y.a, x.b + y.b, x.c + y.c, x.d + y.d, x.e + y.e, x.f + y.f, x.g + y.g, x.h + y.h⟩

def absorb (lanes : Lanes) (block : Bytes) : Lanes :=
  lanes.add <| (constants.zip (schedule block)).foldl
    (fun state pair => round state pair.1 pair.2) lanes

/-- A one bit, then zeros, then the bit length in eight bytes, up to a whole block. -/
def pad (message : Bytes) : Bytes :=
  message ++ 0x80 :: List.replicate ((119 - message.length % 64) % 64) 0 ++
    Bytes.bigEndian 8 (message.length * 8)

def Lanes.bytes (lanes : Lanes) : Bytes :=
  [lanes.a, lanes.b, lanes.c, lanes.d, lanes.e, lanes.f, lanes.g, lanes.h].flatMap
    fun lane => Bytes.bigEndian 4 lane.toNat

def digest (message : Bytes) : Bytes :=
  (((pad message).chunks 64 (by decide)).foldl absorb start).bytes

theorem length_digest (message : Bytes) : (digest message).length = 32 := by
  simp [digest, Lanes.bytes]

end PackedTables.Sha256
