import ExecTruth.Scoring.Verdict

/-! # Counts — how many static starts got which verdict, and how many were missed -/

namespace ExecTruth

/-- The numbers of an evaluation. -/
structure Counts where
  truePositive : Nat
  /-- The starts that lie inside an executed instruction. -/
  confirmedFalse : Nat
  /-- The starts about which nothing is known. -/
  unknown : Nat
  /-- The executed instructions that no start names. -/
  falseNegative : Nat
  deriving DecidableEq, Repr

namespace Counts

/-- All zero. -/
def zero : Counts := ⟨0, 0, 0, 0⟩

/-- The numbers with one more verdict. -/
def addVerdict (c : Counts) : Verdict → Counts
  | .truePositive => { c with truePositive := c.truePositive + 1 }
  | .confirmedFalse _ => { c with confirmedFalse := c.confirmedFalse + 1 }
  | .unknown _ => { c with unknown := c.unknown + 1 }

/-- The numbers on one line. -/
def batchLine (c : Counts) : String :=
  s!"BATCH {c.truePositive} {c.confirmedFalse} {c.unknown} {c.falseNegative}"

/-- The numbers on lines of their own. -/
def display (c : Counts) : String :=
  s!"TP: {c.truePositive}\nFP: {c.confirmedFalse} (confirmed), {c.unknown} (suspected)\n"
    ++ s!"FN: {c.falseNegative}"

/-- The numbers as the value of a field of an event. -/
def describe (c : Counts) : String :=
  "EvaluationCounts \x7b " ++ s!"true_positive: {c.truePositive}, "
    ++ s!"confirmed_false_positive: {c.confirmedFalse}, "
    ++ s!"unknown_false_positive: {c.unknown}, "
    ++ s!"false_negative: {c.falseNegative}" ++ " \x7d"

end Counts

/-- The numbers of the static starts. -/
def GroundTruth.counts (truth : GroundTruth) (statics : OffsetSet) : Counts :=
  let verdicts := (statics.keys.map truth.verdict).foldl .addVerdict Counts.zero
  { verdicts with falseNegative := (truth.missed statics).length }

end ExecTruth
