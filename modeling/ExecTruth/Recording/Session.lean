import ExecTruth.AddressSpace.DeferredMap
import ExecTruth.Capture.Merge
import ExecTruth.Recording.WorkerSets
import ExecTruth.Recording.Config

/-! # Sessions — one traced run of a binary, from live addresses to its capture

    A session turns live addresses into instructions of the binary, gathers those
    that its workers executed, and at the end merges them into the capture on disk.
    Finishing takes the instructions out of the session before they are stored. -/

namespace ExecTruth

/-- A traced run of a binary. -/
structure Session where
  config : SessionConfig
  addresses : DeferredMap
  workers : WorkerSets

namespace Session

/-- A session in which nothing has been executed. -/
def start (config : SessionConfig) : Session := ⟨config, .ofTarget config.binary, .empty⟩

/-- The instruction of a length in bytes at an address; none if the address does
    not belong to the binary or the length does not fit. -/
def instructionAt (source : MapsSource) (vaddr : UInt64) (length : Nat) (s : Session) :
    Logged (Except MapsFault (Option Instruction) × Session) := do
  let (answer, addresses) ← s.addresses.resolve source vaddr
  let s := { s with addresses }
  match answer with
  | .error fault => return (.error fault, s)
  | .ok none => return (.ok none, s)
  | .ok (some offset) =>
      if length < 256 then return (.ok (some ⟨offset.toInt64, length.toUInt8⟩), s)
      Log.report (Log.event .warn sessionPart "instruction is too long to record"
        [("vaddr", Text.hexWord vaddr), ("length", toString length)])
      return (.ok none, s)

/-- The set of a worker. -/
def setFor (s : Session) (worker : Nat) : Logged (SetId × Session) := do
  let (id, workers) ← s.workers.setFor worker
  return (id, { s with workers })

/-- Puts an instruction into a worker's set. -/
def insert (s : Session) (id : SetId) (i : Instruction) : Session :=
  { s with workers := s.workers.insert id i }

/-- Records an instruction that a worker executed. -/
def record (s : Session) (worker : Nat) (i : Instruction) : Logged Session := do
  return { s with workers := ← s.workers.record worker i }

/-- Stores instructions as the configuration says, and gives the merged capture. -/
def store (config : SessionConfig) (table : InstructionTable) :
    Job MergeFault RichCapture := do
  let capture ← mergeRun config.output config.binary table
  if let some legacy := config.legacy then
    Job.wrap .capture (Legacy.save legacy capture.table.keys capture.base)
    Job.log (Log.event .info sessionPart "wrote legacy capture" [("path", legacy.display)])
  return capture

/-- Ends a run: takes out the instructions and stores them. -/
def finish {ε : Type} (s : Session) : Job ε (Except MergeFault RichCapture × Session) := do
  let (table, workers) ← Job.ofLogged s.workers.takeAll
  let answer ← Job.attempt (store s.config table)
  return (answer, { s with workers })

end Session

end ExecTruth
