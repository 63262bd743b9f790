import ExecTruth.Log.Filter
import ExecTruth.Tool.Batch
import ExecTruth.Tool.Disassemble
import ExecTruth.Tool.Dump
import ExecTruth.Tool.Evaluate

/-! # Tools — programs that are run from a command line

    A tool reads its command line, works on the files, and ends with a status, what
    it shows, and what it complains of: what its filter refused, the events that the
    filter lets through, and the report of the failure that ended it.  A command line
    it cannot read ends it with status two before it does anything. -/

namespace ExecTruth

/-- The tools. -/
inductive Tool where
  | evaluate
  | batch
  | dump
  | disassemble
  deriving DecidableEq, Repr

namespace Tool

/-- The tool of a name. -/
def ofName? : String → Option Tool
  | "gt-evaluate" => some .evaluate
  | "gt-batch" => some .batch
  | "gt-dump" => some .dump
  | "gt-objdump" => some .disassemble
  | _ => none

/-- What a tool shows when asked for its version. -/
def versionLine : String := "groundtruth 0.1.0\n"

/-- What a tool takes. -/
def signature : Tool → Signature
  | .evaluate => Evaluate.signature
  | .batch => Batch.signature
  | .dump => Dump.signature
  | .disassemble => Disassemble.signature

/-- The work of a tool, which gives what it shows. -/
def work (disassembler : Disassembler) (args : Arguments) : Tool → Job Failure String
  | .evaluate => Evaluate.run args
  | .batch => Batch.run args
  | .dump => Dump.run args
  | .disassemble => Disassemble.run disassembler args

/-- How a tool ends. -/
structure Outcome where
  status : Nat
  shown : String
  complaints : String
  deriving DecidableEq, Repr

/-- Lines as one text. -/
def textOf (lines : List String) : String := String.join (lines.map (· ++ "\n"))

/-- The status of a tool that cannot read its filter. -/
def tornStatus : Nat := 101

/-- Runs a tool on a command line and on files.  What the filter refused is complained
    of first. -/
def run (tool : Tool) (disassembler : Disassembler) (filter : Log.Filter) (line : List String)
    (files : FileTree) : Outcome × FileTree :=
  let refusals := textOf filter.complaints
  if filter.isTorn then (⟨tornStatus, "", refusals⟩, files)
  else
    match Arguments.read tool.signature line with
    | .misuse => (⟨2, "", refusals⟩, files)
    | .version => (⟨0, versionLine, refusals⟩, files)
    | .run args =>
        match tool.work disassembler args ⟨files, []⟩ with
        | .ok shown host =>
            (⟨0, shown, refusals ++ textOf (Log.render filter host.events)⟩, host.files)
        | .error failure host =>
            let report := "Error: " ++ Explained.report failure ++ "\n"
            (⟨1, "", refusals ++ textOf (Log.render filter host.events) ++ report⟩, host.files)

end Tool

end ExecTruth
