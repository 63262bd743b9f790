import ExecTruth.Scoring.Comparison
import ExecTruth.Tool.Arguments
import ExecTruth.Tool.Failure

/-! # The evaluator — scores one static capture against one dynamic capture -/

namespace ExecTruth.Tool.Evaluate

/-- The dynamic and the static capture, and up to three lists of details. -/
def signature : Signature := ⟨[.path, .path, .path, .path, .path], 2, []⟩

/-- Compares the captures and shows the result. -/
def run (args : Arguments) : Job Failure String := do
  let lists := (args.placed.drop 2).map Path.ofString
  let evaluation ← Failure.lift (Comparison.run (args.path 0) (args.path 1) lists)
  return evaluation.display ++ "\n"

end ExecTruth.Tool.Evaluate
