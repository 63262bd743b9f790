import ExecTruth.Suite.Report
import ExecTruth.Tool.Arguments
import ExecTruth.Tool.Failure

/-! # The batch evaluator — writes the report of a directory of captures -/

namespace ExecTruth.Tool.Batch

/-- The part that reports on the run. -/
def part : String := "gt_batch"

/-- The directories of the dynamic and the static captures, the ending of the names of
    the static ones, and the report. -/
def signature : Signature := ⟨[.path, .path, .text, .path], 4, []⟩

/-- Finds the samples and writes their report. -/
def run (args : Arguments) : Job Failure String := do
  let suffix := (args.at? 2).getD ""
  let samples ← Failure.lift (Sample.findAll (args.path 0) (args.path 1) suffix)
  Job.log (Log.event .info part "evaluating captures" [("samples", toString samples.length)])
  let output := args.path 3
  let target ← Failure.doing ("unable to create " ++ output.quoted) (Job.create output)
  Failure.lift (Report.writeTo target samples)
  return ""

end ExecTruth.Tool.Batch
