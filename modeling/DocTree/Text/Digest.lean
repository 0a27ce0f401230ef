import DocTree.Text.Bytes

/-!
# Digests

The SHA-256 digest of a text. The text is padded to blocks of sixty-four bytes, and each block is
mixed into eight words of thirty-two bits; their bytes are the digest.
-/

namespace DocTree.Digest

/-! ## Words -/

/-- A word with its lowest bits moved to the top. -/
def rotate (x : UInt32) (n : UInt32) : UInt32 := (x >>> n) ||| (x <<< (32 - n))

/-- The word of four bytes, the highest one first. -/
def ofBytes (bytes : Bytes) : UInt32 := bytes.foldl (fun x b => x <<< 8 ||| b.toUInt32) 0

/-- The four bytes of a word, the highest one first. -/
def toBytes (x : UInt32) : Bytes := ([24, 16, 8, 0] : List UInt32).map fun n => (x >>> n).toUInt8

/-! ## Padding -/

/-- The length of a text in bits, as eight bytes. -/
def bitLength (s : Bytes) : Bytes :=
  (List.range 8).reverse.map fun n => UInt8.ofNat (s.length * 8 / Nat.pow 256 n)

/-- The text with a mark, zeros and its length behind it, which fill its last block. -/
def padded (s : Bytes) : Bytes :=
  s ++ 0x80 :: List.replicate ((119 - s.length % 64) % 64) 0 ++ bitLength s

/-- A text cut into so many pieces of `size` bytes. -/
def pieces (size : Nat) : Nat → Bytes → List Bytes
  | 0, _ => []
  | count + 1, s => s.take size :: pieces size count (s.drop size)

/-! ## Mixing -/

/-- The words that each round adds. -/
def roundWords : List UInt32 := [
  0x428a2f98, 0x71374491, 0xb5c0fbcf, 0xe9b5dba5, 0x3956c25b, 0x59f111f1, 0x923f82a4, 0xab1c5ed5,
  0xd807aa98, 0x12835b01, 0x243185be, 0x550c7dc3, 0x72be5d74, 0x80deb1fe, 0x9bdc06a7, 0xc19bf174,
  0xe49b69c1, 0xefbe4786, 0x0fc19dc6, 0x240ca1cc, 0x2de92c6f, 0x4a7484aa, 0x5cb0a9dc, 0x76f988da,
  0x983e5152, 0xa831c66d, 0xb00327c8, 0xbf597fc7, 0xc6e00bf3, 0xd5a79147, 0x06ca6351, 0x14292967,
  0x27b70a85, 0x2e1b2138, 0x4d2c6dfc, 0x53380d13, 0x650a7354, 0x766a0abb, 0x81c2c92e, 0x92722c85,
  0xa2bfe8a1, 0xa81a664b, 0xc24b8b70, 0xc76c51a3, 0xd192e819, 0xd6990624, 0xf40e3585, 0x106aa070,
  0x19a4c116, 0x1e376c08, 0x2748774c, 0x34b0bcb5, 0x391c0cb3, 0x4ed8aa4a, 0x5b9cca4f, 0x682e6ff3,
  0x748f82ee, 0x78a5636f, 0x84c87814, 0x8cc70208, 0x90befffa, 0xa4506ceb, 0xbef9a3f7, 0xc67178f2]

/-- The words of a block and so many more behind them, the last one first. -/
def schedule (block : List UInt32) : Nat → List UInt32
  | 0 => block.reverse
  | n + 1 =>
    let words := schedule block n
    let x := words.getD 14 0
    let y := words.getD 1 0
    let mixed := words.getD 15 0 + (rotate x 7 ^^^ rotate x 18 ^^^ (x >>> 3)) + words.getD 6 0 +
      (rotate y 17 ^^^ rotate y 19 ^^^ (y >>> 10))
    mixed :: words

/-- The eight words of a digest. -/
structure State where
  /-- The first word. -/
  a : UInt32
  /-- The second word. -/
  b : UInt32
  /-- The third word. -/
  c : UInt32
  /-- The fourth word. -/
  d : UInt32
  /-- The fifth word. -/
  e : UInt32
  /-- The sixth word. -/
  f : UInt32
  /-- The seventh word. -/
  g : UInt32
  /-- The eighth word. -/
  h : UInt32

namespace State

/-- The words in front of the first block. -/
def initial : State :=
  ⟨0x6a09e667, 0xbb67ae85, 0x3c6ef372, 0xa54ff53a, 0x510e527f, 0x9b05688c, 0x1f83d9ab, 0x5be0cd19⟩

/-- One round, with the word that it adds. -/
def round (s : State) (word : UInt32) : State :=
  let chosen := (s.e &&& s.f) ^^^ (~~~s.e &&& s.g)
  let major := (s.a &&& s.b) ^^^ (s.a &&& s.c) ^^^ (s.b &&& s.c)
  let x := s.h + (rotate s.e 6 ^^^ rotate s.e 11 ^^^ rotate s.e 25) + chosen + word
  let y := (rotate s.a 2 ^^^ rotate s.a 13 ^^^ rotate s.a 22) + major
  ⟨x + y, s.a, s.b, s.c, s.d + x, s.e, s.f, s.g⟩

/-- The words behind a block. -/
def compress (s : State) (block : Bytes) : State :=
  let words := (schedule ((pieces 4 16 block).map ofBytes) 48).reverse
  let t := (List.zipWith (· + ·) roundWords words).foldl round s
  ⟨s.a + t.a, s.b + t.b, s.c + t.c, s.d + t.d, s.e + t.e, s.f + t.f, s.g + t.g, s.h + t.h⟩

/-- The bytes of the words. -/
def toBytes (s : State) : Bytes :=
  [s.a, s.b, s.c, s.d, s.e, s.f, s.g, s.h].flatMap Digest.toBytes

end State

/-- The SHA-256 digest of a text. -/
def sha256 (s : Bytes) : Bytes :=
  let text := padded s
  ((pieces 64 (text.length / 64) text).foldl State.compress .initial).toBytes

end DocTree.Digest
