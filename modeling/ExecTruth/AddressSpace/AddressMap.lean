import ExecTruth.AddressSpace.Mapping
import ExecTruth.AddressSpace.NamePool
import ExecTruth.SortedMap

/-! # Address maps — where one file is mapped

    An address map holds the ranges of the mappings of one file by their first
    address; a later range replaces an earlier one that begins at the same address.
    An address belongs to the range that begins at it or next below it, if it lies
    in that range at all. -/

namespace ExecTruth

/-- The ranges that one file is mapped to. -/
structure AddressMap where
  ranges : SortedMap UInt64 MappedRange
  deriving DecidableEq

namespace AddressMap

/-- The number of ranges. -/
def size (m : AddressMap) : Nat := m.ranges.size

/-- The file offset of an address. -/
def resolve (m : AddressMap) (vaddr : UInt64) : Option UInt64 :=
  (m.ranges.atOrBelow? vaddr).bind fun (_, range) => range.offsetAt vaddr

/-- The map of ranges in the order of their lines. -/
def ofRanges (ranges : List MappedRange) : AddressMap :=
  ⟨SortedMap.ofList (ranges.map fun r => (r.start, r))⟩

/-- The mappings that have a file, with its path. -/
def backed (ms : List Mapping) : List (Path × MappedRange) :=
  ms.filterMap fun m => m.path.map fun p => (Path.ofString p, m.range)

/-- The map of the file with the name `target`, from the description of an address
    space, and the pool with the names of all files that were read.  A target
    without a name in the pool is no file of it. -/
def ofText (text : String) (target : Option NameId) (pool : NamePool) :
    Except MapsFault AddressMap × NamePool :=
  let (ms, fault) := Mapping.ofText text
  let files := backed ms
  let (ids, pool) := pool.internAll (files.map (·.1))
  match fault with
  | some fault => (.error fault, pool)
  | none =>
      let own := (ids.zip files).filter fun (id, _) => some id = target
      (.ok (ofRanges (own.map fun (_, _, range) => range)), pool)

end AddressMap

end ExecTruth
