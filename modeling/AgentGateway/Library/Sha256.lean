import AgentGateway.Library.Utf8

/-!
# SHA-256

The hash of FIPS 180-4 on byte lists, with words as natural numbers below
`2 ^ 32`, and its digest in lower-case hexadecimal.
-/

namespace Sha256

/-- The word size. -/
def wordMod : ℕ := 4294967296

def rotr (n x : ℕ) : ℕ := (x >>> n ||| x <<< (32 - n)) % wordMod

def smallSigma0 (x : ℕ) : ℕ := rotr 7 x ^^^ rotr 18 x ^^^ (x >>> 3)

def smallSigma1 (x : ℕ) : ℕ := rotr 17 x ^^^ rotr 19 x ^^^ (x >>> 10)

def bigSigma0 (x : ℕ) : ℕ := rotr 2 x ^^^ rotr 13 x ^^^ rotr 22 x

def bigSigma1 (x : ℕ) : ℕ := rotr 6 x ^^^ rotr 11 x ^^^ rotr 25 x

def choose (x y z : ℕ) : ℕ := (x &&& y) ^^^ ((wordMod - 1 - x) &&& z)

def majority (x y z : ℕ) : ℕ := (x &&& y) ^^^ (x &&& z) ^^^ (y &&& z)

/-- The fractional parts of the cube roots of the first sixty-four primes. -/
def roundConstants : List ℕ :=
  [0x428a2f98, 0x71374491, 0xb5c0fbcf, 0xe9b5dba5, 0x3956c25b, 0x59f111f1,
   0x923f82a4, 0xab1c5ed5, 0xd807aa98, 0x12835b01, 0x243185be, 0x550c7dc3,
   0x72be5d74, 0x80deb1fe, 0x9bdc06a7, 0xc19bf174, 0xe49b69c1, 0xefbe4786,
   0x0fc19dc6, 0x240ca1cc, 0x2de92c6f, 0x4a7484aa, 0x5cb0a9dc, 0x76f988da,
   0x983e5152, 0xa831c66d, 0xb00327c8, 0xbf597fc7, 0xc6e00bf3, 0xd5a79147,
   0x06ca6351, 0x14292967, 0x27b70a85, 0x2e1b2138, 0x4d2c6dfc, 0x53380d13,
   0x650a7354, 0x766a0abb, 0x81c2c92e, 0x92722c85, 0xa2bfe8a1, 0xa81a664b,
   0xc24b8b70, 0xc76c51a3, 0xd192e819, 0xd6990624, 0xf40e3585, 0x106aa070,
   0x19a4c116, 0x1e376c08, 0x2748774c, 0x34b0bcb5, 0x391c0cb3, 0x4ed8aa4a,
   0x5b9cca4f, 0x682e6ff3, 0x748f82ee, 0x78a5636f, 0x84c87814, 0x8cc70208,
   0x90befffa, 0xa4506ceb, 0xbef9a3f7, 0xc67178f2]

/-- The eight working variables. -/
structure Digest where
  a : ℕ
  b : ℕ
  c : ℕ
  d : ℕ
  e : ℕ
  f : ℕ
  g : ℕ
  h : ℕ

def initial : Digest :=
  ⟨0x6a09e667, 0xbb67ae85, 0x3c6ef372, 0xa54ff53a,
   0x510e527f, 0x9b05688c, 0x1f83d9ab, 0x5be0cd19⟩

/-- One round with constant `k` and schedule word `w`. -/
def Digest.round (s : Digest) (k w : ℕ) : Digest :=
  let t₁ := s.h + bigSigma1 s.e + choose s.e s.f s.g + k + w
  let t₂ := bigSigma0 s.a + majority s.a s.b s.c
  ⟨(t₁ + t₂) % wordMod, s.a, s.b, s.c, (s.d + t₁) % wordMod, s.e, s.f, s.g⟩

/-- Run the rounds over a window of the next sixteen schedule words. -/
def rounds : List ℕ → List ℕ → Digest → Digest
  | [], _, s => s
  | k :: ks, window, s =>
      let w := window.headD 0
      let next := (smallSigma1 (window.getD 14 0) + window.getD 9 0 +
        smallSigma0 (window.getD 1 0) + w) % wordMod
      rounds ks (window.tail ++ [next]) (s.round k w)

def Digest.add (s t : Digest) : Digest :=
  ⟨(s.a + t.a) % wordMod, (s.b + t.b) % wordMod, (s.c + t.c) % wordMod,
   (s.d + t.d) % wordMod, (s.e + t.e) % wordMod, (s.f + t.f) % wordMod,
   (s.g + t.g) % wordMod, (s.h + t.h) % wordMod⟩

/-- Big-endian words of a byte list. -/
def wordsOf : List ℕ → List ℕ
  | a :: b :: c :: d :: rest =>
      (((a * 256 + b) * 256 + c) * 256 + d) :: wordsOf rest
  | _ => []

/-- Absorb a padded message, sixteen words at a time. -/
def absorb : ℕ → List ℕ → Digest → Digest
  | 0, _, s => s
  | blocks + 1, words, s =>
      absorb blocks (words.drop 16) (s.add (rounds roundConstants (words.take 16) s))

/-- The message, a one bit, zeros, and the length in bits: whole blocks. -/
def pad (message : List ℕ) : List ℕ :=
  let n := message.length
  message ++ 128 :: (List.replicate ((119 - n % 64) % 64) 0 ++
    (List.range 8).map fun i => (n * 8) / 256 ^ (7 - i) % 256)

def hexWord (w : ℕ) : List Char :=
  (List.range 8).map fun i => Nat.digitChar (w / 16 ^ (7 - i) % 16)

def Digest.toHex (s : Digest) : List Char :=
  [s.a, s.b, s.c, s.d, s.e, s.f, s.g, s.h].flatMap hexWord

/-- The digest of a message in lower-case hexadecimal. -/
def hex (message : Utf8.Bytes) : String :=
  let padded := pad (message.map UInt8.toNat)
  String.ofList (absorb (padded.length / 64) (wordsOf padded) initial).toHex

/-- The bytes of a word, the most significant one first. -/
def wordBytes (w : ℕ) : List UInt8 :=
  (List.range 4).map fun i => UInt8.ofNat (w / 256 ^ (3 - i))

def Digest.toBytes (s : Digest) : Vector UInt8 32 :=
  ⟨([s.a, s.b, s.c, s.d, s.e, s.f, s.g, s.h].flatMap wordBytes).toArray,
    by simp [wordBytes]⟩

/-- The digest of a message as bytes, which nothing should unfold. -/
@[irreducible]
def digest (message : Utf8.Bytes) : Vector UInt8 32 :=
  let padded := pad (message.map UInt8.toNat)
  (absorb (padded.length / 64) (wordsOf padded) initial).toBytes

example : hex "abc".toUTF8.data.toList =
    "ba7816bf8f01cfea414140de5dae2223b00361a396177a9cb410ff61f20015ad" := by
  decide +kernel

end Sha256
