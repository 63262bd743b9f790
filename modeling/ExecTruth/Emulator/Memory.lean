import ExecTruth.AddressSpace.Mapping
import ExecTruth.Files.Walk

/-! # Memory — the files that a process has mapped

    A mapping shows whole pages of a file at whole pages of addresses, and no two
    mappings share an address.  Removing a range of addresses cuts the mappings that
    reach into it.  `describe` writes the mappings as lines, lowest address first,
    under the path that the file has, or had before it was removed. -/

namespace ExecTruth

/-- A mapped stretch of a file. -/
structure FileMapping where
  /-- The first address. -/
  start : Nat
  /-- The address behind the last one. -/
  stop : Nat
  /-- The offset in the file at the first address. -/
  offset : Nat
  location : Location
  /-- Whether the file has been removed since. -/
  removed : Bool
  deriving DecidableEq, Repr

/-- The mapped files of a process, lowest address first. -/
structure Memory where
  mappings : List FileMapping
  deriving DecidableEq, Repr

namespace Memory

/-- The number of bytes of a page. -/
def pageSize : Nat := 4096

/-- The first address that may be mapped. -/
def lowest : Nat := 65536

/-- The address behind the last one that may be mapped. -/
def bound : Nat := 0x7ffffffff000

/-- The greatest offset that a file can have. -/
def maxOffset : Nat := 0x7fffffffffffffff

/-- A number of bytes rounded up to whole pages. -/
def wholePages (n : Nat) : Nat := (n + pageSize - 1) / pageSize * pageSize

/-- No mappings. -/
def empty : Memory := ⟨[]⟩

/-- Whether a mapping has addresses from `start` up to below `stop`. -/
def touches (start stop : Nat) (m : FileMapping) : Bool := m.start < stop && start < m.stop

/-- Mappings with one more in its place. -/
def place (m : FileMapping) : List FileMapping → List FileMapping
  | [] => [m]
  | n :: r => if m.start < n.start then m :: n :: r else n :: place m r

/-- Maps the file at a path to an address, if there is such a file and room for it. -/
def map? (mem : Memory) (files : FileTree) (path : Path) (address length offset : Nat) :
    Option Memory :=
  let stop := address + wholePages length
  match files.locate path with
  | .ok (location, .file _) =>
      if address % pageSize = 0 ∧ offset % pageSize = 0 ∧ length ≠ 0 ∧ lowest ≤ address
          ∧ stop ≤ bound ∧ offset + wholePages length ≤ maxOffset
          ∧ !mem.mappings.any (touches address stop) then
        some ⟨place ⟨address, stop, offset, location, false⟩ mem.mappings⟩
      else none
  | _ => none

/-- What is left of a mapping without the addresses from `start` up to below `stop`. -/
def cutOut (start stop : Nat) (m : FileMapping) : List FileMapping :=
  if touches start stop m then
    (if m.start < start then [{ m with stop := start }] else [])
      ++ (if stop < m.stop then
            [{ m with start := stop, offset := m.offset + (stop - m.start) }]
          else [])
  else [m]

/-- Removes the mappings of a range of addresses, if there can be such a range. -/
def unmap (mem : Memory) (address length : Nat) : Memory :=
  if address % pageSize = 0 ∧ length ≠ 0 ∧ address + length ≤ bound then
    ⟨mem.mappings.flatMap (cutOut address (address + wholePages length))⟩
  else mem

/-- Marks the mappings of the file that was at a location. -/
def markRemoved (mem : Memory) (location : Location) : Memory :=
  ⟨mem.mappings.map fun m => if m.location = location then { m with removed := true } else m⟩

/-- The path in the line of a mapping: a line feed in it is spelt out, and a removed
    file is told by the end of the line. -/
def shownPath (m : FileMapping) : List UInt8 :=
  let shown := (FileTree.pathOf m.location).bytes.flatMap fun b =>
    if b = 10 then Text.Utf8.encode "\\012" else [b]
  if m.removed then shown ++ Text.Utf8.encode " (deleted)" else shown

/-- The line of a mapping. -/
def line (m : FileMapping) : List UInt8 :=
  let fields := Text.hexDigits m.start ++ "-" ++ Text.hexDigits m.stop ++ " r-xp "
    ++ Text.hexDigits m.offset ++ " 00:01 1 "
  Text.Utf8.encode fields ++ shownPath m ++ [10]

/-- The description of the memory, which has to be text as a whole. -/
def describe (mem : Memory) : Except IoFault String :=
  (Text.Utf8.decode (mem.mappings.flatMap line)).mapError fun _ => .notText

end Memory

end ExecTruth
