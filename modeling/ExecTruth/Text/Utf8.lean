/-! # UTF-8 — text as bytes, and what is wrong with bytes that are no text

    `decode` accepts exactly the well-formed byte strings.  For the others
    `firstFault` says where the first ill-formed sequence begins and how long its
    longest well-formed start is, and `decodeLossy` puts U+FFFD in the place of
    each such start.  `scan` reads one sequence from the front; the bytes that may
    follow a lead byte are those of the Unicode standard's table of well-formed
    sequences. -/

namespace ExecTruth.Text.Utf8

/-- What stands at the front of a byte string. -/
inductive Front where
  /-- A character of `width` bytes. -/
  | char (c : Char) (width : Nat)
  /-- A sequence that the byte after its first `width` bytes, or its only byte, breaks. -/
  | broken (width : Nat)
  /-- A sequence that the end of the bytes cuts off after `width` bytes. -/
  | unfinished (width : Nat)
  deriving DecidableEq, Repr

/-- Reads `more` further bytes of a sequence whose `width` bytes so far carry
    `value`; the next one lies from `low` to `high`, the others from 80 to BF. -/
def scanRest : (more : Nat) → (low high : UInt8) → (value width : Nat) → List UInt8 → Front
  | 0, _, _, value, width, _ => .char (Char.ofNat value) width
  | _ + 1, _, _, _, width, [] => .unfinished width
  | more + 1, low, high, value, width, b :: r =>
      if low ≤ b ∧ b ≤ high then
        scanRest more 0x80 0xBF (value * 64 + b.toNat % 64) (width + 1) r
      else .broken width

/-- Reads the sequence that the byte `b` leads, with the bytes `r` behind it. -/
def scan (b : UInt8) (r : List UInt8) : Front :=
  if b < 0x80 then .char (Char.ofNat b.toNat) 1
  else if b < 0xC2 then .broken 1
  else if b < 0xE0 then scanRest 1 0x80 0xBF (b.toNat % 32) 1 r
  else if b = 0xE0 then scanRest 2 0xA0 0xBF 0 1 r
  else if b = 0xED then scanRest 2 0x80 0x9F 13 1 r
  else if b < 0xF0 then scanRest 2 0x80 0xBF (b.toNat % 16) 1 r
  else if b = 0xF0 then scanRest 3 0x90 0xBF 0 1 r
  else if b < 0xF4 then scanRest 3 0x80 0xBF (b.toNat % 8) 1 r
  else if b = 0xF4 then scanRest 3 0x80 0x8F 4 1 r
  else .broken 1

/-- A part of a byte string: a character, or bytes that belong to none. -/
inductive Piece where
  | char (c : Char)
  | stray (bytes : List UInt8)
  deriving DecidableEq, Repr

/-- The pieces of the bytes behind `skip` further ones, after the pieces `seen`,
    latest first. -/
def piecesAfter (seen : List Piece) (skip : Nat) : List UInt8 → List Piece
  | [] => seen.reverse
  | b :: r =>
      match skip with
      | skip + 1 => piecesAfter seen skip r
      | 0 =>
          match scan b r with
          | .char c width => piecesAfter (.char c :: seen) (width - 1) r
          | .broken width => piecesAfter (.stray ((b :: r).take width) :: seen) (width - 1) r
          | .unfinished width =>
              piecesAfter (.stray ((b :: r).take width) :: seen) (width - 1) r

/-- The pieces of a byte string. -/
def pieces (bytes : List UInt8) : List Piece := piecesAfter [] 0 bytes

/-- Where text first goes wrong. -/
structure Fault where
  /-- The number of well-formed bytes in front of it. -/
  index : Nat
  /-- The length of the start that a further byte breaks; none if the end of the
      bytes cuts the sequence off. -/
  width : Option Nat
  deriving DecidableEq, Repr

/-- The first fault of bytes that follow `index` ones, not counting faults in the
    next `skip`. -/
def firstFaultAfter (index skip : Nat) : List UInt8 → Fault
  | [] => ⟨index, none⟩
  | b :: r =>
      match skip with
      | skip + 1 => firstFaultAfter (index + 1) skip r
      | 0 =>
          match scan b r with
          | .char _ width => firstFaultAfter (index + 1) (width - 1) r
          | .broken width => ⟨index, some width⟩
          | .unfinished _ => ⟨index, none⟩

/-- The first fault of bytes that are no text. -/
def firstFault (bytes : List UInt8) : Fault := firstFaultAfter 0 0 bytes

/-- The bytes of a text. -/
def encode (s : String) : List UInt8 := s.toUTF8.data.toList

/-- The text that the bytes encode. -/
def decode (bytes : List UInt8) : Except Fault String :=
  match String.fromUTF8? bytes.toByteArray with
  | some s => .ok s
  | none => .error (firstFault bytes)

/-- The text of the bytes with U+FFFD for each part that is no text. -/
def decodeLossy (bytes : List UInt8) : String :=
  String.ofList ((pieces bytes).map fun
    | .char c => c
    | .stray _ => '\uFFFD')

/-- The wording of a fault. -/
def Fault.message (f : Fault) : String :=
  match f.width with
  | some n => s!"invalid utf-8 sequence of {n} bytes from index {f.index}"
  | none => s!"incomplete utf-8 byte sequence from index {f.index}"

end ExecTruth.Text.Utf8
