import ExecTruth.AddressSpace.AddressMap
import ExecTruth.Log.Logged
import ExecTruth.Text.Numeral

/-! # Deferred maps — address maps that are built on first use

    A deferred map reads the description of the address space when it is first asked,
    and again at each request as long as none could be used.  Once a map is built
    it stays, and nothing is read any more. -/

namespace ExecTruth

/-- The answers that reading the description of an address space gives, by the
    number of earlier readings. -/
abbrev MapsSource := Nat → Except IoFault String

/-- Resolves the addresses of one file. -/
structure DeferredMap where
  target : Path
  /-- The names of the files met so far, the target among them. -/
  pool : NamePool
  /-- The map, once it is built. -/
  map? : Option AddressMap
  /-- The number of readings so far. -/
  reads : Nat

namespace DeferredMap

/-- The part that reports on address maps. -/
def part : String := "groundtruth::maps"

/-- The map of a file, before anything was read. -/
def ofTarget (target : Path) : DeferredMap :=
  ⟨target, (NamePool.empty.intern target).2, none, 0⟩

/-- The name of the target. -/
def targetId (d : DeferredMap) : Option NameId := d.pool.find? d.target

/-- Reports a map that was built. -/
def reportBuilt (d : DeferredMap) (m : AddressMap) : Logged Unit := do
  Log.report (Log.event .debug part "built address map"
    [("target", d.target.display), ("ranges", toString m.size),
     ("filenames", toString d.pool.size)])
  if m.size = 0 then
    Log.report (Log.event .warn part "traced binary is not mapped" [("target", d.target.display)])

/-- The map, built from what `source` gives if there is none yet. -/
def request (source : MapsSource) (d : DeferredMap) :
    Logged (Except MapsFault AddressMap × DeferredMap) := do
  match d.map? with
  | some m => return (.ok m, d)
  | none =>
      let d := { d with reads := d.reads + 1 }
      match source (d.reads - 1) with
      | .error fault => return (.error (.io fault), d)
      | .ok text =>
          let (answer, pool) := AddressMap.ofText text d.targetId d.pool
          let d := { d with pool }
          match answer with
          | .error fault => return (.error fault, d)
          | .ok m =>
              d.reportBuilt m
              return (.ok m, { d with map? := some m })

/-- The file offset of an address; none if it belongs to another file or to none. -/
def resolve (source : MapsSource) (vaddr : UInt64) (d : DeferredMap) :
    Logged (Except MapsFault (Option UInt64) × DeferredMap) := do
  match ← d.request source with
  | (.error fault, d) => return (.error fault, d)
  | (.ok m, d) =>
      let offset := m.resolve vaddr
      if offset.isNone then
        Log.report (Log.event .trace part "address is outside of the traced binary"
          [("vaddr", Text.hexWord vaddr)])
      return (.ok offset, d)

end DeferredMap

end ExecTruth
