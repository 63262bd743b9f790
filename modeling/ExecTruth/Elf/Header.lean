import ExecTruth.Elf.Looking
import ExecTruth.Word.Bytes

/-! # ELF headers — how a file's fields are stored, and where its sections are

    The identification at the beginning of a file says how wide its words are and
    in which order their bytes come.  The fields of the file header follow, one
    after the other, and any of them may be cut off by the end of the file. -/

namespace ExecTruth.Elf

/-- The width of the words of a file. -/
inductive Width where
  | bits32
  | bits64
  deriving DecidableEq, Repr

/-- The order of the bytes of a field. -/
inductive ByteOrder where
  | little
  | big
  deriving DecidableEq, Repr

/-- How the fields of a file are stored. -/
structure Encoding where
  width : Width
  order : ByteOrder
  deriving DecidableEq, Repr

namespace Encoding

/-- The number of bytes of an address. -/
def wordSize (e : Encoding) : Nat :=
  match e.width with
  | .bits32 => 4
  | .bits64 => 8

/-- The number of bytes of a section header. -/
def sectionHeaderSize (e : Encoding) : Nat :=
  match e.width with
  | .bits32 => 40
  | .bits64 => 64

/-- The number that bytes stand for. -/
def value (e : Encoding) (bytes : List UInt8) : Nat :=
  match e.order with
  | .little => Word.ofLittle bytes
  | .big => Word.ofBig bytes

/-- The bytes that stand for a number. -/
def bytes (e : Encoding) (size n : Nat) : List UInt8 :=
  match e.order with
  | .little => Word.toLittle size n
  | .big => Word.toBig size n

/-- The sizes of the fields of a file header, behind the identification. -/
def headerSizes (e : Encoding) : List Nat :=
  [2, 2, 4, e.wordSize, e.wordSize, e.wordSize, 4, 2, 2, 2, 2, 2, 2]

end Encoding

namespace Looking

/-- Looks at a field, if the file is long enough. -/
def field (e : Encoding) (length start size : Nat) : Looking Nat :=
  if length < start + size then fail (.cutField size (length - start))
  else look ⟨start, size⟩ fun bytes => done (e.value bytes)

/-- Looks at fields of the given sizes, one behind the other. -/
def fields (e : Encoding) (length : Nat) : (start : Nat) → List Nat → Looking (List Nat)
  | _, [] => return []
  | start, size :: sizes => do
      let n ← field e length start size
      return n :: (← fields e length (start + size) sizes)

end Looking

/-- The bytes that every file begins with. -/
def magic : List UInt8 := [0x7F, 0x45, 0x4C, 0x46]

/-- The number of bytes of the identification. -/
def identSize : Nat := 16

/-- What the bytes of an identification say. -/
def identify (bytes : List UInt8) : Except HeaderFault Encoding :=
  if bytes.take 4 ≠ magic then .error (.badMagic (Word.ofLittle (bytes.take 8)))
  else do
    let width ← match bytes.getD 4 0 with
      | 1 => .ok .bits32
      | 2 => .ok .bits64
      | other => .error (.badClass other)
    let order ← match bytes.getD 5 0 with
      | 1 => .ok .little
      | 2 => .ok .big
      | other => .error (.badByteOrder other)
    return ⟨width, order⟩

/-- Where the section table of a file is, as its header says. -/
structure Header where
  encoding : Encoding
  /-- The offset of the section table; zero if there is none. -/
  sectionOffset : Nat
  /-- The number of section headers; zero if the first of them says it. -/
  sectionCount : Nat
  deriving DecidableEq, Repr

/-- What the numbers in the fields of a file header say; there is one for each field. -/
def Header.ofNumbers (e : Encoding) : List Nat → Header
  | [_kind, _machine, _version, _entry, _programOffset, sectionOffset, _flags, _headerSize,
      _programEntrySize, _programCount, _sectionEntrySize, sectionCount, _nameTable] =>
      ⟨e, sectionOffset, sectionCount⟩
  | _ => ⟨e, 0, 0⟩

namespace Looking

/-- Looks at the identification. -/
def identification (length : Nat) : Looking Encoding :=
  if length < identSize then fail .tooSmall
  else look ⟨0, identSize⟩ fun bytes => ofExcept (identify bytes)

/-- Looks at the identification and the file header. -/
def header (length : Nat) : Looking Header := do
  let e ← identification length
  return .ofNumbers e (← fields e length identSize e.headerSizes)

end Looking

/-- Reads the identification and the file header. -/
def Header.read (bytes : List UInt8) : Except HeaderFault Header :=
  (Looking.header bytes.length).run bytes

end ExecTruth.Elf
