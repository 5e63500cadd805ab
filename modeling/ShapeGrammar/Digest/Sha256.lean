import ShapeGrammar.Text.Literal

/-!
# SHA-256

The digest that tells whether two texts are the same without keeping them. The message is padded
to whole blocks of sixteen words; each block is expanded to sixty-four words, which are mixed into
eight chaining words one after the other.

Headlines: `digest`, `hexDigest`.
-/

namespace ShapeGrammar.Digest.Sha256

/-- The round constants: the first bits of the fractional parts of the cube roots of primes. -/
def roundConstants : Array UInt32 :=
  #[0x428a2f98, 0x71374491, 0xb5c0fbcf, 0xe9b5dba5, 0x3956c25b, 0x59f111f1, 0x923f82a4, 0xab1c5ed5,
    0xd807aa98, 0x12835b01, 0x243185be, 0x550c7dc3, 0x72be5d74, 0x80deb1fe, 0x9bdc06a7, 0xc19bf174,
    0xe49b69c1, 0xefbe4786, 0x0fc19dc6, 0x240ca1cc, 0x2de92c6f, 0x4a7484aa, 0x5cb0a9dc, 0x76f988da,
    0x983e5152, 0xa831c66d, 0xb00327c8, 0xbf597fc7, 0xc6e00bf3, 0xd5a79147, 0x06ca6351, 0x14292967,
    0x27b70a85, 0x2e1b2138, 0x4d2c6dfc, 0x53380d13, 0x650a7354, 0x766a0abb, 0x81c2c92e, 0x92722c85,
    0xa2bfe8a1, 0xa81a664b, 0xc24b8b70, 0xc76c51a3, 0xd192e819, 0xd6990624, 0xf40e3585, 0x106aa070,
    0x19a4c116, 0x1e376c08, 0x2748774c, 0x34b0bcb5, 0x391c0cb3, 0x4ed8aa4a, 0x5b9cca4f, 0x682e6ff3,
    0x748f82ee, 0x78a5636f, 0x84c87814, 0x8cc70208, 0x90befffa, 0xa4506ceb, 0xbef9a3f7, 0xc67178f2]

/-- The chaining words. -/
structure Chain where
  a : UInt32
  b : UInt32
  c : UInt32
  d : UInt32
  e : UInt32
  f : UInt32
  g : UInt32
  h : UInt32
  deriving DecidableEq, Repr, Inhabited

/-- The chaining words before the first block. -/
def Chain.initial : Chain :=
  ⟨0x6a09e667, 0xbb67ae85, 0x3c6ef372, 0xa54ff53a, 0x510e527f, 0x9b05688c, 0x1f83d9ab, 0x5be0cd19⟩

/-- Rotation to the right. -/
def rotate (x : UInt32) (n : UInt32) : UInt32 :=
  (x >>> n) ||| (x <<< (32 - n))

/-- The word that an expanded block has at place `i`, from the words before it. -/
def expandedWord (w : Array UInt32) (i : Nat) : UInt32 :=
  let before := fun k => w.getD (i - k) 0
  let s0 := rotate (before 15) 7 ^^^ rotate (before 15) 18 ^^^ (before 15 >>> 3)
  let s1 := rotate (before 2) 17 ^^^ rotate (before 2) 19 ^^^ (before 2 >>> 10)
  before 16 + s0 + before 7 + s1

/-- A block of sixteen words expanded to sixty-four. -/
def expand (block : Array UInt32) : Array UInt32 :=
  (List.range 48).foldl (fun w i => w.push (expandedWord w (16 + i))) block

/-- One round with a constant and a word of the expanded block. -/
def Chain.round (s : Chain) (k w : UInt32) : Chain :=
  let s1 := rotate s.e 6 ^^^ rotate s.e 11 ^^^ rotate s.e 25
  let choice := (s.e &&& s.f) ^^^ ((~~~ s.e) &&& s.g)
  let t1 := s.h + s1 + choice + k + w
  let s0 := rotate s.a 2 ^^^ rotate s.a 13 ^^^ rotate s.a 22
  let majority := (s.a &&& s.b) ^^^ (s.a &&& s.c) ^^^ (s.b &&& s.c)
  ⟨t1 + s0 + majority, s.a, s.b, s.c, s.d + t1, s.e, s.f, s.g⟩

/-- Mixes one block into the chaining words. -/
def Chain.absorb (s : Chain) (block : Array UInt32) : Chain :=
  let t := (roundConstants.zip (expand block)).foldl (fun s kw => s.round kw.1 kw.2) s
  ⟨s.a + t.a, s.b + t.b, s.c + t.c, s.d + t.d, s.e + t.e, s.f + t.f, s.g + t.g, s.h + t.h⟩

/-- The bytes of `n`, most significant first. -/
def bigEndian (width n : Nat) : List UInt8 :=
  (List.range width).map fun i => UInt8.ofNat (n >>> (8 * (width - 1 - i)))

/-- The message, a one bit, zeros up to a whole number of blocks, and the length in bits. -/
def padded (message : List UInt8) : List UInt8 :=
  let n := message.length
  message ++ 0x80 :: List.replicate ((119 - n % 64) % 64) 0 ++ bigEndian 8 (8 * n)

/-- The words of a list of bytes, four bytes each. -/
def words : List UInt8 → List UInt32
  | a :: b :: c :: d :: rest =>
    ((a.toUInt32 <<< 24) ||| (b.toUInt32 <<< 16) ||| (c.toUInt32 <<< 8) ||| d.toUInt32) ::
      words rest
  | _ => []

/-- Absorbs `count` blocks of sixteen words. -/
def absorbAll : Nat → List UInt32 → Chain → Chain
  | 0, _, s => s
  | count + 1, ws, s => absorbAll count (ws.drop 16) (s.absorb (ws.take 16).toArray)

/-- The chaining words after the whole message. -/
def digest (message : List UInt8) : Chain :=
  let ws := words (padded message)
  absorbAll (ws.length / 16) ws .initial

/-- The digest of the UTF-8 form of a text, in hexadecimal. -/
def hexDigest (text : String) : String :=
  let s := digest text.toUTF8.data.toList
  String.join ([s.a, s.b, s.c, s.d, s.e, s.f, s.g, s.h].map fun w => Text.hex 8 w.toNat)

end ShapeGrammar.Digest.Sha256
