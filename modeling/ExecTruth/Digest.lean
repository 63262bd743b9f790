import ExecTruth.Files.Job
import ExecTruth.Word.Bytes

/-! # Digests — SHA-256, which tells builds of a binary apart

    The message is padded with a one bit, zeros, and its length in bits to whole
    blocks of 64 bytes.  Each block is spread over 64 words, and one round for each
    word stirs the eight words of the state.  A digest is written as 64 hexadecimal
    digits. -/

namespace ExecTruth.Digest

/-- The round constants: the first 32 bits of the fractional parts of the cube
    roots of the first 64 primes. -/
def roundConstants : List UInt32 :=
  [0x428a2f98, 0x71374491, 0xb5c0fbcf, 0xe9b5dba5, 0x3956c25b, 0x59f111f1,
   0x923f82a4, 0xab1c5ed5, 0xd807aa98, 0x12835b01, 0x243185be, 0x550c7dc3,
   0x72be5d74, 0x80deb1fe, 0x9bdc06a7, 0xc19bf174, 0xe49b69c1, 0xefbe4786,
   0x0fc19dc6, 0x240ca1cc, 0x2de92c6f, 0x4a7484aa, 0x5cb0a9dc, 0x76f988da,
   0x983e5152, 0xa831c66d, 0xb00327c8, 0xbf597fc7, 0xc6e00bf3, 0xd5a79147,
   0x06ca6351, 0x14292967, 0x27b70a85, 0x2e1b2138, 0x4d2c6dfc, 0x53380d13,
   0x650a7354, 0x766a0abb, 0x81c2c92e, 0x92722c85, 0xa2bfe8a1, 0xa81a664b,
   0xc24b8b70, 0xc76c51a3, 0xd192e819, 0xd6990624, 0xf40e3585, 0x106aa070,
   0x19a4c116, 0x1e376c08, 0x2748774c, 0x34b0bcb5, 0x391c0cb3, 0x4ed8aa4a,
   0x5b9cca4f, 0x682e6ff3, 0x748f82ee, 0x78a5636f, 0x84c87814, 0x8cc70208,
   0x90befffa, 0xa4506ceb, 0xbef9a3f7, 0xc67178f2]

/-- The eight words that the blocks stir. -/
structure State where
  a : UInt32
  b : UInt32
  c : UInt32
  d : UInt32
  e : UInt32
  f : UInt32
  g : UInt32
  h : UInt32
  deriving DecidableEq, Repr

/-- The state before the first block: the first 32 bits of the fractional parts of
    the square roots of the first eight primes. -/
def State.start : State :=
  ⟨0x6a09e667, 0xbb67ae85, 0x3c6ef372, 0xa54ff53a,
   0x510e527f, 0x9b05688c, 0x1f83d9ab, 0x5be0cd19⟩

/-- The words of a state. -/
def State.words (s : State) : List UInt32 := [s.a, s.b, s.c, s.d, s.e, s.f, s.g, s.h]

/-- The wordwise sum of two states. -/
def State.add (s t : State) : State :=
  ⟨s.a + t.a, s.b + t.b, s.c + t.c, s.d + t.d, s.e + t.e, s.f + t.f, s.g + t.g, s.h + t.h⟩

/-- A word turned to the right. -/
def turn (w : UInt32) (n : UInt32) : UInt32 := (w >>> n) ||| (w <<< (32 - n))

/-- One round, with its constant and its word of the block. -/
def State.round (s : State) (kw : UInt32 × UInt32) : State :=
  let sum1 := turn s.e 6 ^^^ turn s.e 11 ^^^ turn s.e 25
  let choice := (s.e &&& s.f) ^^^ (~~~s.e &&& s.g)
  let t1 := s.h + sum1 + choice + kw.1 + kw.2
  let sum0 := turn s.a 2 ^^^ turn s.a 13 ^^^ turn s.a 22
  let majority := (s.a &&& s.b) ^^^ (s.a &&& s.c) ^^^ (s.b &&& s.c)
  ⟨t1 + (sum0 + majority), s.a, s.b, s.c, s.d + t1, s.e, s.f, s.g⟩

/-- The word that follows the words of a schedule. -/
def nextWord (w : Array UInt32) : UInt32 :=
  let back (n : Nat) := w.getD (w.size - n) 0
  let s0 := turn (back 15) 7 ^^^ turn (back 15) 18 ^^^ (back 15 >>> 3)
  let s1 := turn (back 2) 17 ^^^ turn (back 2) 19 ^^^ (back 2 >>> 10)
  back 16 + s0 + back 7 + s1

/-- A schedule with `more` words added. -/
def extend : (more : Nat) → Array UInt32 → Array UInt32
  | 0, w => w
  | more + 1, w => extend more (w.push (nextWord w))

/-- The words of bytes, highest byte first. -/
def wordsOf : List UInt8 → List UInt32
  | a :: b :: c :: d :: r =>
      (a.toUInt32 <<< 24 ||| b.toUInt32 <<< 16 ||| c.toUInt32 <<< 8 ||| d.toUInt32) :: wordsOf r
  | _ => []

/-- The state after a block of 64 bytes. -/
def State.block (s : State) (bytes : List UInt8) : State :=
  let schedule := extend 48 (wordsOf bytes).toArray
  s.add ((roundConstants.zip schedule.toList).foldl State.round s)

/-- The state after `count` blocks. -/
def blocks : (count : Nat) → State → List UInt8 → State
  | 0, s, _ => s
  | count + 1, s, bytes => blocks count (s.block (bytes.take 64)) (bytes.drop 64)

/-- The message as whole blocks. -/
def pad (message : List UInt8) : List UInt8 :=
  let zeros := (119 - message.length % 64) % 64
  message ++ 0x80 :: List.replicate zeros 0 ++ Word.toBig 8 (8 * message.length)

/-- The SHA-256 of a message, in hexadecimal. -/
def ofBytes (message : List UInt8) : String :=
  let padded := pad message
  let state := blocks (padded.length / 64) State.start padded
  Text.hexBytes (state.words.flatMap fun w => Word.toBig 4 w.toNat)

/-- The SHA-256 of the file at a path. -/
def ofFile (p : Path) : Job IoFault String := return ofBytes (← Job.readAll p)

end ExecTruth.Digest
