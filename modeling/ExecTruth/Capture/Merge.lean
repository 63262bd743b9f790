import ExecTruth.Capture.Store
import ExecTruth.Digest
import ExecTruth.Elf.LoadBase

/-! # Merging — adding a run to the capture on disk

    The instructions of a run join those of an earlier capture if its digest shows
    that it is of the same build of the binary; then the earlier lengths and the
    earlier load base stay.  Otherwise nothing of it is used, and the load base is
    taken from the binary.  The merged capture replaces the earlier one. -/

namespace ExecTruth

/-- A failure to merge a run into a capture. -/
inductive MergeFault where
  /-- The capture cannot be written. -/
  | capture (fault : CaptureFault)
  /-- The binary does not tell its load base. -/
  | loadBase (fault : LoadBaseFault)
  /-- The binary cannot be read. -/
  | io (fault : IoFault)
  deriving DecidableEq, Repr

namespace MergeFault

/-- The wording of a merge fault. -/
def message : MergeFault → String
  | .capture _ => "capture file error"
  | .loadBase _ => "unable to determine base address"
  | .io _ => "IO Error:"

/-- The causes of a merge fault. -/
def causes : MergeFault → List String
  | .capture fault => Explained.chain fault
  | .loadBase fault => Explained.chain fault
  | .io fault => Explained.chain fault

instance : Explained MergeFault := ⟨message, causes⟩

end MergeFault

/-- What an earlier capture has to give. -/
inductive EarlierCapture where
  /-- Nothing: it is not there, or it cannot be read. -/
  | nothing
  /-- All of it: it is of the same build. -/
  | sameBuild (capture : RichCapture)
  /-- Nothing: it is of another build, with this digest. -/
  | otherBuild (digest : String)
  deriving DecidableEq

/-- The part that reports on stored captures. -/
def storePart : String := "groundtruth::store"

/-- Looks for an earlier capture of the build with a digest. -/
def EarlierCapture.load {ε : Type} (p : Path) (digest : String) : Job ε EarlierCapture := do
  if !(← Job.files).reaches p then return .nothing
  match ← Job.attempt (RichCapture.load p) with
  | .ok capture =>
      if capture.digest = digest then return .sameBuild capture
      Job.log (Log.event .warn storePart "binary changed since the previous capture, discarding it"
        [("path", p.display), ("previous", capture.digest), ("current", digest)])
      return .otherBuild capture.digest
  | .error fault =>
      Job.log (Log.event .warn storePart "unable to read previous capture, starting over"
        [("path", p.display), ("error", fault.message)])
      return .nothing

/-- Merges the instructions of a run on the build with a digest into the capture at
    a path, and gives the merged capture. -/
def mergeBuild (p binary : Path) (table : InstructionTable) (digest : String) :
    Job MergeFault RichCapture := do
  let (merged, base) ← match ← EarlierCapture.load p digest with
    | .sameBuild prior => pure (prior.table.overriding table, prior.base)
    | .nothing | .otherBuild _ => do
        let base ← Job.wrap .loadBase (loadBaseOf binary)
        pure (table, base)
  let capture : RichCapture := ⟨digest, base, merged⟩
  Job.wrap .capture (RichCapture.save p capture)
  Job.log (Log.event .info storePart "wrote capture"
    [("path", p.display), ("digest", digest), ("base_address", Word.hexOffset base),
     ("captured", toString table.size), ("total", toString merged.size)])
  return capture

/-- Merges the instructions of a run on a binary into the capture at a path. -/
def mergeRun (p binary : Path) (table : InstructionTable) : Job MergeFault RichCapture := do
  let digest ← Job.wrap .io (Digest.ofFile binary)
  mergeBuild p binary table digest

end ExecTruth
