import AgentGateway.Library.Sha256

/-!
# SHA-1

The digest that version 5 identifiers are made of.
-/

namespace Sha1

open Sha256 (wordMod)

structure Digest where
  a : ℕ
  b : ℕ
  c : ℕ
  d : ℕ
  e : ℕ

def initial : Digest :=
  ⟨0x67452301, 0xEFCDAB89, 0x98BADCFE, 0x10325476, 0xC3D2E1F0⟩

def rotateLeft (k w : ℕ) : ℕ := w * 2 ^ k % wordMod + w / 2 ^ (32 - k)

/-- The round function and its constant, by the number of the round. -/
def mix (t : ℕ) (s : Digest) : ℕ :=
  if t < 20 then
    ((s.b &&& s.c) ||| ((wordMod - 1 - s.b) &&& s.d)) + 0x5A827999
  else if t < 40 then (s.b ^^^ s.c ^^^ s.d) + 0x6ED9EBA1
  else if t < 60 then
    ((s.b &&& s.c) ||| (s.b &&& s.d) ||| (s.c &&& s.d)) + 0x8F1BBCDC
  else (s.b ^^^ s.c ^^^ s.d) + 0xCA62C1D6

def Digest.round (t w : ℕ) (s : Digest) : Digest :=
  ⟨(rotateLeft 5 s.a + mix t s + s.e + w) % wordMod, s.a, rotateLeft 30 s.b,
    s.c, s.d⟩

/-- Some rounds from a given one on, over a window of the schedule. -/
def rounds : ℕ → ℕ → List ℕ → Digest → Digest
  | 0, _, _, s => s
  | n + 1, t, window, s =>
      let w := window.headD 0
      let next := rotateLeft 1 (window.getD 13 0 ^^^ window.getD 8 0 ^^^
        window.getD 2 0 ^^^ w)
      rounds n (t + 1) (window.tail ++ [next]) (s.round t w)

def Digest.add (s t : Digest) : Digest :=
  ⟨(s.a + t.a) % wordMod, (s.b + t.b) % wordMod, (s.c + t.c) % wordMod,
    (s.d + t.d) % wordMod, (s.e + t.e) % wordMod⟩

def absorb : ℕ → List ℕ → Digest → Digest
  | 0, _, s => s
  | blocks + 1, words, s =>
      absorb blocks (words.drop 16) (s.add (rounds 80 0 (words.take 16) s))

def digest (message : Utf8.Bytes) : Digest :=
  let padded := Sha256.pad (message.map UInt8.toNat)
  absorb (padded.length / 64) (Sha256.wordsOf padded) initial

example : (digest "abc".toUTF8.data.toList).a = 0xA9993E36 := by
  decide +kernel

end Sha1
