import Mathlib.Data.List.Basic

/-!
Owns the SHA-256 digest of a byte string, as an executable function: padding,
message schedule, compression, and big-endian output. Words are natural
numbers below `2 ^ 32`.

Does not own: incremental hashing interfaces or any security property.
-/

namespace Aegis.Foundation

/-- A digest of 32 bytes. -/
abbrev Digest := { bytes : List UInt8 // bytes.length = 32 }

namespace Sha256

def word (value : Nat) : Nat := value % 0x100000000

def rotateRight (value amount : Nat) : Nat := value >>> amount ||| word (value <<< (32 - amount))

def choose (x y z : Nat) : Nat := (x &&& y) ^^^ ((0xffffffff - x) &&& z)

def majority (x y z : Nat) : Nat := (x &&& y) ^^^ (x &&& z) ^^^ (y &&& z)

def bigSigma0 (x : Nat) : Nat := rotateRight x 2 ^^^ rotateRight x 13 ^^^ rotateRight x 22

def bigSigma1 (x : Nat) : Nat := rotateRight x 6 ^^^ rotateRight x 11 ^^^ rotateRight x 25

def smallSigma0 (x : Nat) : Nat := rotateRight x 7 ^^^ rotateRight x 18 ^^^ (x >>> 3)

def smallSigma1 (x : Nat) : Nat := rotateRight x 17 ^^^ rotateRight x 19 ^^^ (x >>> 10)

def roundConstants : List Nat :=
  [0x428a2f98, 0x71374491, 0xb5c0fbcf, 0xe9b5dba5, 0x3956c25b, 0x59f111f1, 0x923f82a4, 0xab1c5ed5,
   0xd807aa98, 0x12835b01, 0x243185be, 0x550c7dc3, 0x72be5d74, 0x80deb1fe, 0x9bdc06a7, 0xc19bf174,
   0xe49b69c1, 0xefbe4786, 0x0fc19dc6, 0x240ca1cc, 0x2de92c6f, 0x4a7484aa, 0x5cb0a9dc, 0x76f988da,
   0x983e5152, 0xa831c66d, 0xb00327c8, 0xbf597fc7, 0xc6e00bf3, 0xd5a79147, 0x06ca6351, 0x14292967,
   0x27b70a85, 0x2e1b2138, 0x4d2c6dfc, 0x53380d13, 0x650a7354, 0x766a0abb, 0x81c2c92e, 0x92722c85,
   0xa2bfe8a1, 0xa81a664b, 0xc24b8b70, 0xc76c51a3, 0xd192e819, 0xd6990624, 0xf40e3585, 0x106aa070,
   0x19a4c116, 0x1e376c08, 0x2748774c, 0x34b0bcb5, 0x391c0cb3, 0x4ed8aa4a, 0x5b9cca4f, 0x682e6ff3,
   0x748f82ee, 0x78a5636f, 0x84c87814, 0x8cc70208, 0x90befffa, 0xa4506ceb, 0xbef9a3f7, 0xc67178f2]

/-- The chaining value of eight words. -/
structure Chain where
  a : Nat
  b : Nat
  c : Nat
  d : Nat
  e : Nat
  f : Nat
  g : Nat
  h : Nat

def initial : Chain :=
  ⟨0x6a09e667, 0xbb67ae85, 0x3c6ef372, 0xa54ff53a, 0x510e527f, 0x9b05688c, 0x1f83d9ab, 0x5be0cd19⟩

/-- One round; `keyed` is the sum of round constant and schedule word. -/
def round (s : Chain) (keyed : Nat) : Chain :=
  let first := word (s.h + bigSigma1 s.e + choose s.e s.f s.g + keyed)
  let second := word (bigSigma0 s.a + majority s.a s.b s.c)
  ⟨word (first + second), s.a, s.b, s.c, word (s.d + first), s.e, s.f, s.g⟩

/-- Extend a schedule by `count` words; `newest` holds the words so far, the
last one first. -/
def extend : Nat → List Nat → List Nat
  | 0, newest => newest.reverse
  | count + 1, newest =>
      extend count (word (smallSigma1 (newest.getD 1 0) + newest.getD 6 0 +
        smallSigma0 (newest.getD 14 0) + newest.getD 15 0) :: newest)

def compress (s : Chain) (block : List Nat) : Chain :=
  let schedule := extend 48 block.reverse
  let r := (List.zipWith (· + ·) roundConstants schedule).foldl round s
  ⟨word (s.a + r.a), word (s.b + r.b), word (s.c + r.c), word (s.d + r.d),
    word (s.e + r.e), word (s.f + r.f), word (s.g + r.g), word (s.h + r.h)⟩

def bigEndian (size value : Nat) : List UInt8 :=
  (List.range size).map fun index => UInt8.ofNat (value >>> (8 * (size - 1 - index)))

/-- The message, a one bit, zeros, and the bit length in 64 bits. -/
def pad (message : List UInt8) : List UInt8 :=
  message ++ 0x80 :: List.replicate ((119 - message.length % 64) % 64) 0 ++
    bigEndian 8 (8 * message.length)

def words : List UInt8 → List Nat
  | a :: b :: c :: d :: rest =>
      (a.toNat <<< 24 + b.toNat <<< 16 + c.toNat <<< 8 + d.toNat) :: words rest
  | _ => []

def compressBlocks : Nat → List Nat → Chain → Chain
  | 0, _, s => s
  | count + 1, input, s => compressBlocks count (input.drop 16) (compress s (input.take 16))

def output (s : Chain) : Digest :=
  ⟨bigEndian 4 s.a ++ bigEndian 4 s.b ++ bigEndian 4 s.c ++ bigEndian 4 s.d ++
    bigEndian 4 s.e ++ bigEndian 4 s.f ++ bigEndian 4 s.g ++ bigEndian 4 s.h, by
    simp [bigEndian]⟩

end Sha256

def sha256 (message : List UInt8) : Digest :=
  let input := Sha256.words (Sha256.pad message)
  Sha256.output (Sha256.compressBlocks (input.length / 16) input Sha256.initial)

-- The published digest of "abc".
example : (sha256 [0x61, 0x62, 0x63]).val =
    [0xba, 0x78, 0x16, 0xbf, 0x8f, 0x01, 0xcf, 0xea, 0x41, 0x41, 0x40, 0xde, 0x5d, 0xae, 0x22, 0x23,
     0xb0, 0x03, 0x61, 0xa3, 0x96, 0x17, 0x7a, 0x9c, 0xb4, 0x10, 0xff, 0x61, 0xf2, 0x00, 0x15,
     0xad] := by
  decide +kernel

end Aegis.Foundation
