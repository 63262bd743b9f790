import ExecTruth.Capture.Instruction
import ExecTruth.Log.Logged

/-! # Worker sets — the instructions that each worker has executed

    Every worker owns a set, which is made when the worker is first met and is its
    own from then on.  A set keeps the first length it is given for an offset.
    Merging empties all sets into one table, where the lowest worker that holds an
    offset gives its length.

    A worker is told by a number that is the place of its slot, and slots are made up to it.
    Any number is one here; those that no vector of slots can reach, `2 ^ 64 - 1` among
    them, are not meant. -/

namespace ExecTruth

/-- A worker's set, by the number of sets made before it. -/
abbrev SetId := Nat

/-- The sets of the workers. -/
structure WorkerSets where
  /-- What the sets hold, in the order they were made. -/
  sets : List InstructionTable
  /-- The set of each worker. -/
  owned : SortedMap Nat SetId
  deriving DecidableEq

namespace WorkerSets

/-- The part that reports on workers. -/
def part : String := "groundtruth::accumulator"

/-- No workers. -/
def empty : WorkerSets := ⟨[], .empty⟩

instance : EmptyCollection WorkerSets := ⟨empty⟩

instance : Inhabited WorkerSets := ⟨empty⟩

/-- The number of workers. -/
def size (ws : WorkerSets) : Nat := ws.owned.size

/-- The number that is above those of all workers. -/
def upperBound (ws : WorkerSets) : Nat :=
  match ws.owned.keys.getLast? with
  | none => 0
  | some worker => worker + 1

/-- What a set holds. -/
def contents (ws : WorkerSets) (id : SetId) : InstructionTable := ws.sets.getD id .empty

/-- The set of a worker, made if it has none. -/
def setFor (ws : WorkerSets) (worker : Nat) : Logged (SetId × WorkerSets) := do
  match ws.owned.find? worker with
  | some id => return (id, ws)
  | none =>
      Log.report (Log.event .debug part "registered capture worker"
        [("worker", toString worker)])
      let id := ws.sets.length
      return (id, ⟨ws.sets ++ [.empty], ws.owned.insert worker id⟩)

/-- Puts an instruction into a set. -/
def insert (ws : WorkerSets) (id : SetId) (i : Instruction) : WorkerSets :=
  { ws with sets := ws.sets.modify id fun set => set.insertNew i.offset i.length }

/-- Puts an instruction into the set of a worker. -/
def record (ws : WorkerSets) (worker : Nat) (i : Instruction) : Logged WorkerSets := do
  let (id, ws) ← ws.setFor worker
  return ws.insert id i

/-- All instructions, those of the lowest worker first. -/
def union (ws : WorkerSets) : InstructionTable :=
  ws.owned.entries.foldl (fun table e => table.extendNew (ws.contents e.2)) .empty

/-- The same workers with empty sets. -/
def drained (ws : WorkerSets) : WorkerSets :=
  { ws with sets := ws.sets.map fun _ => .empty }

/-- The table of all instructions, and the workers without them. -/
def takeAll (ws : WorkerSets) : Logged (InstructionTable × WorkerSets) := do
  let table := ws.union
  Log.report (Log.event .debug part "merged worker sets"
    [("workers", toString ws.upperBound), ("instructions", toString table.size)])
  return (table, ws.drained)

end WorkerSets

end ExecTruth
