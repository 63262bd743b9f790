import ExecTruth.Capture.Legacy
import ExecTruth.Capture.Rich
import ExecTruth.Files.Job

/-! # Stored captures — captures as files -/

namespace ExecTruth

/-- Reads the rich capture at a path. -/
def RichCapture.load (p : Path) : Job CaptureFault RichCapture := do
  let source ← Job.wrap .ofIo (Job.openSource p)
  return (← Job.ofExcept (RichCapture.parse source)).1

/-- Reads the legacy capture at a path. -/
def Legacy.load (p : Path) : Job CaptureFault OffsetSet := do
  let source ← Job.wrap .ofIo (Job.openSource p)
  Job.ofExcept (Legacy.parse source)

/-- Writes a rich capture to a path. -/
def RichCapture.save (p : Path) (c : RichCapture) : Job CaptureFault Unit := do
  (← Job.wrap .ofIo (Job.create p)).send .ofIo c.emit

/-- Writes the addresses of offsets loaded at `base` to a path. -/
def Legacy.save (p : Path) (offsets : List Int64) (base : Int64) : Job CaptureFault Unit := do
  (← Job.wrap .ofIo (Job.create p)).send .ofIo (Legacy.emit base offsets)

end ExecTruth
