import ExecTruth.Capture.Store
import ExecTruth.Disassembly.Listing
import ExecTruth.Tool.Arguments
import ExecTruth.Tool.Failure

/-! # The disassembling tool — static captures of all binaries of a directory

    Every regular file of the input directory is given to a disassembler, in the
    order of the names.  What it prints is kept as it is, and the instruction starts
    it shows become a legacy capture.  A file with which something goes wrong is
    reported and left out. -/

namespace ExecTruth.Tool

/-- What a run of a disassembler leaves behind. -/
structure DisassemblerRun where
  output : List UInt8
  complaints : List UInt8
  /-- Zero if it succeeded. -/
  status : Nat
  deriving DecidableEq, Repr

/-- Runs the program of a name on a file, among files that stay as they are. -/
abbrev Disassembler := FileTree → String → Path → Except IoFault DisassemblerRun

/-- The disassembler where no program can be run.  One whose name has a slash is looked
    for among the files, which are no programs; any other is not there. -/
def Disassembler.unavailable : Disassembler := fun files program _ =>
  let p := Path.ofString program
  if p.bytes.contains Path.slash then
    match files.locate p with
    | .ok _ => .error .notPermitted
    | .error fault => .error fault
  else if Walk.maxName < p.bytes.length then .error .nameTooLong
  else .error .missing

namespace Disassemble

/-- The part that reports on the run. -/
def part : String := "gt_objdump"

/-- The directories of the binaries and of the captures, and the disassembler. -/
def signature : Signature := ⟨[.path, .path], 2, ["objdump"]⟩

/-- Where the output of the disassembler goes. -/
def rawPath (outputDir : Path) (name : String) : Path :=
  outputDir.join (Path.ofString (name ++ "_objdump_raw.txt"))

/-- Where the capture goes. -/
def capturePath (outputDir : Path) (name : String) : Path :=
  outputDir.join (Path.ofString (name ++ "_objdump.out"))

/-- The output of a run that succeeded. -/
def outputOf (program : String) (r : DisassemblerRun) : Except Failure (List UInt8) :=
  if r.status = 0 then .ok r.output
  else
    let complaints := Text.trim (Text.Utf8.decodeLossy r.complaints).toList
    .error ⟨s!"{program} exited with exit status: {r.status}: " ++ String.ofList complaints, []⟩

/-- Disassembles a file. -/
def single (disassembler : Disassembler) (program : String) (input outputDir : Path)
    (name : String) : Job Failure Listing := do
  let ran ← Failure.doing ("unable to run " ++ program)
    (do Job.ofExcept (disassembler (← Job.files) program input))
  let output ← Job.ofExcept (outputOf program ran)
  Failure.lift (Job.writeAll (rawPath outputDir name) output)
  let listing := Listing.ofText (Text.Utf8.decodeLossy output)
  Failure.lift (Legacy.save (capturePath outputDir name) listing.starts.keys 0)
  return listing

/-- Disassembles a file of the input directory, and shows what it has. -/
def entry (disassembler : Disassembler) (program : String) (inputDir outputDir : Path)
    (fileName : List UInt8) : Job Failure String := do
  let input := inputDir.join ⟨fileName⟩
  match Text.Utf8.decode fileName with
  | .error _ =>
      Job.log (Log.event .warn part "skipping file with non-UTF-8 name"
        [("path", input.display)])
      return ""
  | .ok name =>
      match ← Job.attempt (single disassembler program input outputDir name) with
      | .ok listing =>
          return s!"{name}: {listing.starts.size} instructions, "
            ++ s!"{listing.undecoded} undecodable\n"
      | .error failure =>
          Job.log (Log.event .warn part "skipping file"
            [("path", input.display), ("error", Explained.report failure)])
          return ""

/-- Disassembles the files of a directory. -/
def run (disassembler : Disassembler) (args : Arguments) : Job Failure String := do
  let inputDir := args.path 0
  let outputDir := args.path 1
  let program := (args.value? "objdump").getD "objdump"
  Failure.doing ("unable to create " ++ outputDir.quoted) (Job.makeDirectories outputDir)
  let entries ← Failure.doing ("unable to list " ++ inputDir.quoted)
    (Job.listDirectory inputDir)
  let names := entries.filterMap fun
    | (name, .file _) => some name
    | _ => none
  let shown ← (names.mergeSort Path.nameLe).mapM (entry disassembler program inputDir outputDir)
  return String.join shown

end Disassemble

end ExecTruth.Tool
