import ExecTruth.SortedMap

/-! # Instructions — where an instruction of the binary starts, and how long it is

    Offsets count from the beginning of the binary, with the load base left out.
    A table holds each start once, in ascending order. -/

namespace ExecTruth

/-- An instruction start in a binary. -/
structure Instruction where
  offset : Int64
  /-- The number of bytes of the instruction. -/
  length : UInt8
  deriving DecidableEq, Repr

/-- Instruction starts with their lengths. -/
abbrev InstructionTable : Type := SortedMap Int64 UInt8

/-- Offsets or addresses, each once and in ascending order. -/
abbrev OffsetSet : Type := SortedMap Int64 Unit

/-- The instructions of a table, in ascending order. -/
def SortedMap.instructions (t : InstructionTable) : List Instruction :=
  t.entries.map fun (o, l) => ⟨o, l⟩

/-- The set of a list of offsets in any order. -/
def OffsetSet.ofOffsets (l : List Int64) : OffsetSet :=
  SortedMap.ofList (l.map fun o => (o, ()))

end ExecTruth
