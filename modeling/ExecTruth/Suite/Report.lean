import ExecTruth.Suite.Csv
import ExecTruth.Suite.Sample

/-! # Reports — the counts of many samples as a table

    A report has one row for each sample, under a header that is written with the
    first row.  A sample that cannot be compared ends the report; the rows in front
    of it are written all the same. -/

namespace ExecTruth.Report

/-- The names of the columns. -/
def header : List String := ["binary", "tp", "fp_c", "fp_o", "fn"]

/-- The row of a sample. -/
def row (name : String) (c : Counts) : List String :=
  [name, toString c.truePositive, toString c.confirmedFalse, toString c.unknown,
   toString c.falseNegative]

/-- The bytes that a row adds to a report that has `written` bytes so far. -/
def rowBytes (written : List UInt8) (name : String) (c : Counts) : List UInt8 :=
  (if written.isEmpty then Csv.recordBytes header else []) ++ Csv.recordBytes (row name c)

/-- What of the written bytes a target has been handed so far: whole blocks only, and
    none before a further byte needs the place. -/
def handedOn (written : List UInt8) : List UInt8 :=
  written.take ((written.length - 1) / Blocks.size * Blocks.size)

/-- The report of samples behind `written` bytes, on the way to a target or to none, and
    the fault that ends it.  Samples can be read from the target itself. -/
def rows (target : Option Job.Target) (written : List UInt8) :
    List Sample → Job BatchFault (List UInt8 × Option BatchFault)
  | [] => return (written, none)
  | s :: rest => do
      match ← Job.attempt (Comparison.run s.dynamicPath s.staticPath []) with
      | .error fault => return (written, some fault)
      | .ok evaluation =>
          let counts := evaluation.counts
          Job.log (Log.bareEvent .info Sample.part
            [("sample", s.name), ("batch", counts.batchLine)])
          let written := written ++ rowBytes written s.name counts
          if (target.bind Comparison.roomOf).any (· < written.length) then
            return (written, some (.report .deviceFull))
          if let some target := target then target.write 0 (handedOn written)
          rows target written rest

/-- The report of samples as bytes, as far as it goes, and the fault that ends it. -/
def ofSamples (samples : List Sample) : Job BatchFault (Emission BatchFault) := do
  let (bytes, fault) ← rows none [] samples
  return ⟨bytes, fault⟩

/-- Writes the report of samples to a target. -/
def writeTo (target : Job.Target) (samples : List Sample) : Job BatchFault Unit := do
  let (bytes, fault) ← rows (some target) [] samples
  target.write 0 bytes
  match fault with
  | some fault => throw fault
  | none => if target.refuses true bytes then throw (.io .deviceFull)

end ExecTruth.Report
