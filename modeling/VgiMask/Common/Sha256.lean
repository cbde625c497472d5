import Mathlib.Data.Nat.Notation

/-!
# The hash function SHA-256

The hash over lists of bytes: the message is padded to blocks of 64 bytes, and every block goes
through 64 rounds on eight working words. It is executable, so that what depends on a hash can be
run on the hash that is meant.
-/

namespace Common

/-- The round constants. -/
def sha256Constants : List UInt32 := [
  0x428a2f98, 0x71374491, 0xb5c0fbcf, 0xe9b5dba5, 0x3956c25b, 0x59f111f1, 0x923f82a4, 0xab1c5ed5,
  0xd807aa98, 0x12835b01, 0x243185be, 0x550c7dc3, 0x72be5d74, 0x80deb1fe, 0x9bdc06a7, 0xc19bf174,
  0xe49b69c1, 0xefbe4786, 0x0fc19dc6, 0x240ca1cc, 0x2de92c6f, 0x4a7484aa, 0x5cb0a9dc, 0x76f988da,
  0x983e5152, 0xa831c66d, 0xb00327c8, 0xbf597fc7, 0xc6e00bf3, 0xd5a79147, 0x06ca6351, 0x14292967,
  0x27b70a85, 0x2e1b2138, 0x4d2c6dfc, 0x53380d13, 0x650a7354, 0x766a0abb, 0x81c2c92e, 0x92722c85,
  0xa2bfe8a1, 0xa81a664b, 0xc24b8b70, 0xc76c51a3, 0xd192e819, 0xd6990624, 0xf40e3585, 0x106aa070,
  0x19a4c116, 0x1e376c08, 0x2748774c, 0x34b0bcb5, 0x391c0cb3, 0x4ed8aa4a, 0x5b9cca4f, 0x682e6ff3,
  0x748f82ee, 0x78a5636f, 0x84c87814, 0x8cc70208, 0x90befffa, 0xa4506ceb, 0xbef9a3f7, 0xc67178f2]

/-- The eight working words. -/
structure HashWords where
  a : UInt32
  b : UInt32
  c : UInt32
  d : UInt32
  e : UInt32
  f : UInt32
  g : UInt32
  h : UInt32

/-- The words before the first block. -/
def HashWords.initial : HashWords where
  a := 0x6a09e667
  b := 0xbb67ae85
  c := 0x3c6ef372
  d := 0xa54ff53a
  e := 0x510e527f
  f := 0x9b05688c
  g := 0x1f83d9ab
  h := 0x5be0cd19

/-- Rotate a word to the right. -/
def rotateRight (x n : UInt32) : UInt32 := (x >>> n) ||| (x <<< (32 - n))

/-- The schedule word that follows sixteen schedule words. -/
def nextScheduleWord (window : List UInt32) : UInt32 :=
  let w1 := window.getD 1 0
  let w14 := window.getD 14 0
  (rotateRight w14 17 ^^^ rotateRight w14 19 ^^^ (w14 >>> 10)) + window.getD 9 0 +
    (rotateRight w1 7 ^^^ rotateRight w1 18 ^^^ (w1 >>> 3)) + window.getD 0 0

namespace HashWords

/-- One round with its constant and its schedule word. -/
def round (s : HashWords) (k w : UInt32) : HashWords :=
  let t1 := s.h + (rotateRight s.e 6 ^^^ rotateRight s.e 11 ^^^ rotateRight s.e 25) +
    ((s.e &&& s.f) ^^^ (~~~s.e &&& s.g)) + k + w
  let t2 := (rotateRight s.a 2 ^^^ rotateRight s.a 13 ^^^ rotateRight s.a 22) +
    ((s.a &&& s.b) ^^^ (s.a &&& s.c) ^^^ (s.b &&& s.c))
  ⟨t1 + t2, s.a, s.b, s.c, s.d + t1, s.e, s.f, s.g⟩

/-- The rounds of the given constants, over a window of sixteen schedule words. -/
def rounds : List UInt32 → List UInt32 → HashWords → HashWords
  | [], _, s => s
  | k :: ks, window, s =>
    rounds ks (window.tail ++ [nextScheduleWord window]) (s.round k (window.getD 0 0))

/-- The words after a block of sixteen words. -/
def compress (s : HashWords) (block : List UInt32) : HashWords :=
  let t := rounds sha256Constants block s
  ⟨s.a + t.a, s.b + t.b, s.c + t.c, s.d + t.d, s.e + t.e, s.f + t.f, s.g + t.g, s.h + t.h⟩

end HashWords

/-- The words of bytes, the highest byte first. -/
def wordsOfBytes : List UInt8 → List UInt32
  | a :: b :: c :: d :: rest =>
    (a.toUInt32 <<< 24 ||| b.toUInt32 <<< 16 ||| c.toUInt32 <<< 8 ||| d.toUInt32) :: wordsOfBytes rest
  | _ => []

/-- The bytes of a word, the highest first. -/
def bytesOfWord (w : UInt32) : List UInt8 :=
  [(w >>> 24).toUInt8, (w >>> 16).toUInt8, (w >>> 8).toUInt8, w.toUInt8]

/-- A number of bits as eight bytes, the highest first. -/
def lengthBytes (bits : ℕ) : List UInt8 :=
  (List.range 8).map fun i => (bits >>> (8 * (7 - i))).toUInt8

/-- The message, a one bit, zeros, and the number of bits of the message. -/
def sha256Padded (message : List UInt8) : List UInt8 :=
  message ++ 0x80 :: List.replicate ((119 - message.length % 64) % 64) 0 ++ lengthBytes (8 * message.length)

/-- The words after a number of blocks of sixteen words. -/
def hashBlocks : ℕ → List UInt32 → HashWords → HashWords
  | 0, _, s => s
  | n + 1, words, s => hashBlocks n (words.drop 16) (s.compress (words.take 16))

/-- The SHA-256 digest of a message. -/
def sha256 (message : List UInt8) : Vector UInt8 32 :=
  let words := wordsOfBytes (sha256Padded message)
  let s := hashBlocks (words.length / 16) words HashWords.initial
  ⟨([s.a, s.b, s.c, s.d, s.e, s.f, s.g, s.h].flatMap bytesOfWord).toArray, rfl⟩

/-- The digest of the text `abc`. -/
example : sha256 [0x61, 0x62, 0x63] = ⟨#[
    0xba, 0x78, 0x16, 0xbf, 0x8f, 0x01, 0xcf, 0xea, 0x41, 0x41, 0x40, 0xde, 0x5d, 0xae, 0x22, 0x23,
    0xb0, 0x03, 0x61, 0xa3, 0x96, 0x17, 0x7a, 0x9c, 0xb4, 0x10, 0xff, 0x61, 0xf2, 0x00, 0x15, 0xad],
    rfl⟩ := by
  decide +kernel

end Common
