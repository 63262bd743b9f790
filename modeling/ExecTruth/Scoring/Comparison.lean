import ExecTruth.Capture.Store
import ExecTruth.Scoring.Detail

/-! # Comparisons — a static capture scored against a dynamic one, both on disk

    The dynamic capture is read first, then the static one, and only then are the
    lists of details created.  The details are written in blocks, each list from its
    own position, so that lists in one file write over one another.  When the
    comparison ends, in whatever way, the lists are written as far as they go. -/

namespace ExecTruth

/-- What comparing two captures gives. -/
structure Evaluation where
  digest : String
  base : Int64
  /-- The number of executed instructions. -/
  dynamicSize : Nat
  /-- The number of static starts. -/
  staticSize : Nat
  counts : Counts
  deriving DecidableEq, Repr

/-- The lines of an evaluation. -/
def Evaluation.display (e : Evaluation) : String :=
  "digest: " ++ e.digest ++ "\nbase address: " ++ Word.hexOffset e.base
    ++ s!"\ndynamic instructions: {e.dynamicSize}\nstatic instructions: {e.staticSize}\n"
    ++ e.counts.display ++ "\n" ++ e.counts.batchLine

/-- A failure to compare captures. -/
inductive BatchFault where
  /-- A capture cannot be read. -/
  | capture (path : Path) (fault : CaptureFault)
  /-- A list cannot be created. -/
  | create (path : Path) (fault : IoFault)
  /-- A directory cannot be listed. -/
  | list (path : Path) (fault : IoFault)
  /-- The rows of a report cannot be written. -/
  | report (fault : IoFault)
  /-- Writing failed. -/
  | io (fault : IoFault)
  deriving DecidableEq, Repr

namespace BatchFault

/-- The wording of the fault. -/
def message : BatchFault → String
  | .capture path _ => "unable to read capture " ++ path.quoted
  | .create path _ => "unable to create " ++ path.quoted
  | .list path _ => "unable to list " ++ path.quoted
  | .report _ => "unable to write report"
  | .io _ => "IO Error:"

/-- The causes of the fault. -/
def causes : BatchFault → List String
  | .capture _ fault => Explained.chain fault
  | .create _ fault => Explained.chain fault
  | .list _ fault => Explained.chain fault
  -- The writer of rows has the words of what it wraps.
  | .report fault => fault.message :: Explained.chain fault
  | .io fault => Explained.chain fault

instance : Explained BatchFault := ⟨message, causes⟩

end BatchFault

namespace Comparison

/-- Creates the files of the lists in order. -/
def createLists : List Path → Job BatchFault (List Job.Target)
  | [] => return []
  | p :: ps => do
      let target ← Job.wrap (.create p) (Job.create p)
      return target :: (← createLists ps)

/-- The room that the list of a target has before its bytes are handed on. -/
def roomOf (target : Job.Target) : Option Nat :=
  match target with
  | .fullDevice => some Blocks.size
  | .file _ | .nullDevice => none

/-- Writes blocks to targets, each from the position that its target has reached. -/
def writeBlocks (targets : List (Job.Target × Nat)) : List Block → Job BatchFault Unit
  | [] => return
  | b :: rest => do
      match targets[b.place]? with
      | none => writeBlocks targets rest
      | some (target, position) =>
          target.write position b.bytes
          writeBlocks (targets.set b.place (target, position + b.bytes.length)) rest

/-- The pieces of details, with the place of the list each is for. -/
def piecesOf (details : List Detail) : List (Nat × List UInt8) :=
  details.flatMap fun d => d.pieces.map fun piece => (d.kind.place, Text.Utf8.encode piece)

/-- Scores static starts, with the lists of details in the files of targets. -/
def evaluateOn (targets : List Job.Target) (truth : GroundTruth) (statics : OffsetSet) :
    Job BatchFault Counts := do
  let rooms := targets.map roomOf
  let (texts, outcome) := truth.evaluate statics rooms
  writeBlocks (targets.map (·, 0))
    (Blocks.ofPieces targets.length (piecesOf (truth.listed statics rooms)))
  if (targets.zip texts).any fun (t, text) => t.refuses true text then throw (.io .deviceFull)
  -- No list but that of a full device has limited room.
  let counts ← Job.ofExcept (outcome.mapError fun _ => .io .deviceFull)
  Job.ofLogged counts.reportFinished
  return counts

/-- Compares the captures at two paths and lists the details at up to three others. -/
def run (dynamicPath staticPath : Path) (lists : List Path) : Job BatchFault Evaluation := do
  let capture ← Job.wrap (.capture dynamicPath) (RichCapture.load dynamicPath)
  let statics ← Job.wrap (.capture staticPath) (Legacy.load staticPath)
  let targets ← createLists (lists.take maxDetailLists)
  let counts ← evaluateOn targets ⟨capture.table, capture.base⟩ statics
  return ⟨capture.digest, capture.base, capture.table.size, statics.size, counts⟩

end Comparison

end ExecTruth
