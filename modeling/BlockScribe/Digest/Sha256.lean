/-!
# SHA-256

The message is padded to blocks of 64 bytes.  Each block is stretched to 64
words, which are mixed one after the other into a state of eight.
-/

namespace BlockScribe.Sha256

structure State where
  a : UInt32
  b : UInt32
  c : UInt32
  d : UInt32
  e : UInt32
  f : UInt32
  g : UInt32
  h : UInt32

def State.initial : State :=
  ⟨0x6a09e667, 0xbb67ae85, 0x3c6ef372, 0xa54ff53a, 0x510e527f, 0x9b05688c, 0x1f83d9ab, 0x5be0cd19⟩

def roundConstants : List UInt32 :=
  [0x428a2f98, 0x71374491, 0xb5c0fbcf, 0xe9b5dba5, 0x3956c25b, 0x59f111f1, 0x923f82a4, 0xab1c5ed5,
    0xd807aa98, 0x12835b01, 0x243185be, 0x550c7dc3, 0x72be5d74, 0x80deb1fe, 0x9bdc06a7, 0xc19bf174,
    0xe49b69c1, 0xefbe4786, 0x0fc19dc6, 0x240ca1cc, 0x2de92c6f, 0x4a7484aa, 0x5cb0a9dc, 0x76f988da,
    0x983e5152, 0xa831c66d, 0xb00327c8, 0xbf597fc7, 0xc6e00bf3, 0xd5a79147, 0x06ca6351, 0x14292967,
    0x27b70a85, 0x2e1b2138, 0x4d2c6dfc, 0x53380d13, 0x650a7354, 0x766a0abb, 0x81c2c92e, 0x92722c85,
    0xa2bfe8a1, 0xa81a664b, 0xc24b8b70, 0xc76c51a3, 0xd192e819, 0xd6990624, 0xf40e3585, 0x106aa070,
    0x19a4c116, 0x1e376c08, 0x2748774c, 0x34b0bcb5, 0x391c0cb3, 0x4ed8aa4a, 0x5b9cca4f, 0x682e6ff3,
    0x748f82ee, 0x78a5636f, 0x84c87814, 0x8cc70208, 0x90befffa, 0xa4506ceb, 0xbef9a3f7, 0xc67178f2]

/-! ## Bytes and words -/

/-- The last `count` bytes of a number, most significant first. -/
def bigEndian (count value : Nat) : List UInt8 :=
  (List.range count).map fun place => UInt8.ofNat (value >>> (8 * (count - 1 - place)))

theorem length_bigEndian (count value : Nat) : (bigEndian count value).length = count := by
  simp [bigEndian]

def wordOf (bytes : List UInt8) : UInt32 :=
  bytes.foldl (fun word byte => word <<< 8 ||| byte.toUInt32) 0

def rows (size : Nat) : Nat → List UInt8 → List (List UInt8)
  | 0, _ => []
  | count + 1, bytes => bytes.take size :: rows size count (bytes.drop size)

/-- The message with a marker bit, zeros up to a whole number of blocks, and its length in bits. -/
def pad (message : List UInt8) : List UInt8 :=
  let zeros := (119 - message.length % 64) % 64
  message ++ 0x80 :: List.replicate zeros 0 ++ bigEndian 8 (8 * message.length)

/-! ## Mixing -/

def rotate (word count : UInt32) : UInt32 :=
  word >>> count ||| word <<< (32 - count)

/-- One more word of the schedule, of which the latest stands first. -/
def extend (words : List UInt32) : List UInt32 :=
  let word (back : Nat) := words.getD (back - 1) 0
  let near := word 2
  let far := word 15
  let mixedNear := rotate near 17 ^^^ rotate near 19 ^^^ near >>> 10
  let mixedFar := rotate far 7 ^^^ rotate far 18 ^^^ far >>> 3
  (mixedNear + word 7 + mixedFar + word 16) :: words

def schedule (block : List UInt8) : List UInt32 :=
  let words := (rows 4 16 block).map wordOf
  (Nat.repeat extend 48 words.reverse).reverse

def mix (s : State) (word : UInt32) : State :=
  let sumE := rotate s.e 6 ^^^ rotate s.e 11 ^^^ rotate s.e 25
  let choice := (s.e &&& s.f) ^^^ (~~~s.e &&& s.g)
  let first := s.h + sumE + choice + word
  let sumA := rotate s.a 2 ^^^ rotate s.a 13 ^^^ rotate s.a 22
  let majority := (s.a &&& s.b) ^^^ (s.a &&& s.c) ^^^ (s.b &&& s.c)
  ⟨first + (sumA + majority), s.a, s.b, s.c, s.d + first, s.e, s.f, s.g⟩

def compress (s : State) (block : List UInt8) : State :=
  let t := (List.zipWith (· + ·) roundConstants (schedule block)).foldl mix s
  ⟨s.a + t.a, s.b + t.b, s.c + t.c, s.d + t.d, s.e + t.e, s.f + t.f, s.g + t.g, s.h + t.h⟩

def hash (message : List UInt8) : List UInt8 :=
  let padded := pad message
  let s := (rows 64 (padded.length / 64) padded).foldl compress .initial
  [s.a, s.b, s.c, s.d, s.e, s.f, s.g, s.h].flatMap fun word => bigEndian 4 word.toNat

end BlockScribe.Sha256
