import ExecTruth.IoFault
import ExecTruth.Text.Blank
import ExecTruth.Text.Lines
import ExecTruth.Text.Quoted

/-! # Mappings — the lines that describe an address space

    A line holds, between blanks, a range of addresses, four bytes of permissions,
    the offset in the mapped file, a device, and an inode.  What follows is the path
    of the file, blanks inside it included; a mapping without a file has inode zero.
    A description is read up to its first line that is neither blank nor a mapping. -/

namespace ExecTruth

/-- A mapped range of addresses. -/
structure MappedRange where
  /-- The first address. -/
  start : UInt64
  /-- The address behind the last one. -/
  stop : UInt64
  /-- The offset that the first address has in the mapped file. -/
  offset : UInt64
  deriving DecidableEq, Repr

namespace MappedRange

/-- Whether an address lies in the range. -/
def contains (r : MappedRange) (vaddr : UInt64) : Bool := r.start ≤ vaddr && vaddr < r.stop

/-- The file offset of an address of the range. -/
def offsetAt (r : MappedRange) (vaddr : UInt64) : Option UInt64 :=
  if r.contains vaddr then some (vaddr - r.start + r.offset) else none

end MappedRange

/-- A line of the description of an address space. -/
structure Mapping where
  range : MappedRange
  perms : String
  inode : UInt64
  /-- The mapped file, if there is one. -/
  path : Option String
  deriving DecidableEq, Repr

/-- A failure to read the description of an address space. -/
inductive MapsFault where
  /-- A line is no mapping; lines count from one. -/
  | malformed (line : Nat) (text : String)
  /-- There is no description. -/
  | io (fault : IoFault)
  deriving DecidableEq, Repr

namespace MapsFault

/-- The wording of the fault. -/
def message : MapsFault → String
  | .malformed line text =>
      "malformed memory mapping on line " ++ toString line ++ ": " ++ Text.quoted text
  | .io _ => "unable to read memory mappings"

/-- The causes of the fault. -/
def causes : MapsFault → List String
  | .malformed _ _ => []
  | .io fault => Explained.chain fault

instance : Explained MapsFault := ⟨message, causes⟩

end MapsFault

namespace Mapping

/-- Reads a line. -/
def parse? (line : List Char) : Option Mapping := do
  let (range, rest) ← Text.nextWord line
  let (perms, rest) ← Text.nextWord rest
  let (offset, rest) ← Text.nextWord rest
  let (_device, rest) ← Text.nextWord rest
  let (inode, rest) ← Text.nextWord rest
  let (start, stop) ← Text.cutOnce '-' range
  let start ← Text.word? 16 start
  let stop ← Text.word? 16 stop
  let offset ← Text.word? 16 offset
  let inode ← Text.word? 10 inode
  let perms := String.ofList perms
  let path := String.ofList (Text.trim rest)
  guard (start ≤ stop ∧ perms.utf8ByteSize = 4)
  return ⟨⟨start, stop, offset⟩, perms, inode,
    if inode ≠ 0 ∧ path ≠ "" then some path else none⟩

/-- The mappings of numbered lines in front of the first that is none, and the
    fault that this line is. -/
def ofLines : (number : Nat) → List (List Char) → List Mapping × Option MapsFault
  | _, [] => ([], none)
  | number, line :: rest =>
      if line.all Text.isBlank then ofLines (number + 1) rest
      else
        match parse? line with
        | none => ([], some (.malformed number (String.ofList line)))
        | some m =>
            let (ms, fault) := ofLines (number + 1) rest
            (m :: ms, fault)

/-- The mappings of a description, and its first fault. -/
def ofText (text : String) : List Mapping × Option MapsFault :=
  ofLines 1 (Text.lines text.toList)

end Mapping

end ExecTruth
