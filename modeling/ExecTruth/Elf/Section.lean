import ExecTruth.Elf.Header

/-! # ELF sections — the section table of a file

    The table begins at the offset the file header names and has as many entries
    as the header says, or, if it says none, as the size field of the first entry
    says.  There is always a first entry.  A count that the whole file would have no
    room for is refused before the entries are read. -/

namespace ExecTruth.Elf

/-- A section header, with its fields as 64-bit words whatever the file's width. -/
structure Section where
  name : UInt64
  kind : UInt64
  flags : UInt64
  address : UInt64
  offset : UInt64
  size : UInt64
  link : UInt64
  info : UInt64
  alignment : UInt64
  entrySize : UInt64
  deriving DecidableEq, Repr

namespace Section

/-- The section header with numbers in its fields; there is one for each field. -/
def ofNumbers : List Nat → Section
  | [name, kind, flags, address, offset, size, link, info, alignment, entrySize] =>
      ⟨name.toUInt64, kind.toUInt64, flags.toUInt64, address.toUInt64, offset.toUInt64,
        size.toUInt64, link.toUInt64, info.toUInt64, alignment.toUInt64, entrySize.toUInt64⟩
  | _ => ⟨0, 0, 0, 0, 0, 0, 0, 0, 0, 0⟩

/-- The flag of a section that has a place in memory. -/
def allocatedFlag : UInt64 := 2

/-- The flag of a section that holds instructions. -/
def executableFlag : UInt64 := 4

/-- Whether a section has a place in memory and holds instructions. -/
def isCode (s : Section) : Bool :=
  s.flags &&& (allocatedFlag ||| executableFlag) == (allocatedFlag ||| executableFlag)

end Section

/-- The sizes of the fields of a section header. -/
def Encoding.sectionSizes (e : Encoding) : List Nat :=
  [4, 4, e.wordSize, e.wordSize, e.wordSize, e.wordSize, 4, 4, e.wordSize, e.wordSize]

namespace Looking

/-- Looks at a section header. -/
def entry (e : Encoding) (length start : Nat) : Looking Section := do
  return .ofNumbers (← fields e length start e.sectionSizes)

/-- Looks at `count` section headers, one behind the other. -/
def entries (e : Encoding) (length : Nat) : (count start : Nat) → Looking (List Section)
  | 0, _ => return []
  | count + 1, start => do
      let first ← entry e length start
      return first :: (← entries e length count (start + e.sectionHeaderSize))

/-- Looks at the section table that a file header tells of. -/
def table (length : Nat) (header : Header) : Looking (List Section) :=
  let e := header.encoding
  if header.sectionOffset = 0 then return []
  else if length < header.sectionOffset then fail (.badOffset header.sectionOffset)
  else do
    let first ← entry e length header.sectionOffset
    let count := if header.sectionCount = 0 then first.size.toNat else header.sectionCount
    if length / e.sectionHeaderSize < count then fail (.tooManySections count)
    else
      let start := header.sectionOffset + e.sectionHeaderSize
      return first :: (← entries e length (count - 1) start)

/-- Looks at the headers of a file of a length. -/
def sections (length : Nat) : Looking (List Section) := do
  table length (← header length)

end Looking

/-- The section headers of a file. -/
def sections (bytes : List UInt8) : Except HeaderFault (List Section) :=
  (Looking.sections bytes.length).run bytes

end ExecTruth.Elf
