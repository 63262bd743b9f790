import ExecTruth.Recording.WorkerSets

/-! # Worker caches — the worker that each thread ran last

    Looking up a worker's set at every instruction would be slow, so each thread
    keeps the worker it ran last together with that worker's set, and looks a set
    up only when the worker changes. -/

namespace ExecTruth

/-- The worker that each thread ran last, with its set. -/
abbrev WorkerCache : Type := SortedMap Nat (Nat × SetId)

namespace WorkerCache

/-- The set of a worker that runs on a thread. -/
def lookUp (cache : WorkerCache) (thread worker : Nat) (ws : WorkerSets) :
    Logged (SetId × WorkerCache × WorkerSets) := do
  match cache.find? thread with
  | some (last, id) =>
      if last = worker then return (id, cache, ws)
      let (id, ws) ← ws.setFor worker
      return (id, cache.insert thread (worker, id), ws)
  | none =>
      let (id, ws) ← ws.setFor worker
      return (id, cache.insert thread (worker, id), ws)

/-- Records an instruction that a worker executed on a thread. -/
def record (cache : WorkerCache) (thread worker : Nat) (i : Instruction) (ws : WorkerSets) :
    Logged (WorkerCache × WorkerSets) := do
  let (id, cache, ws) ← cache.lookUp thread worker ws
  return (cache, ws.insert id i)

end WorkerCache

end ExecTruth
