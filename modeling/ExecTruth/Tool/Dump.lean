import ExecTruth.Capture.Store
import ExecTruth.Digest
import ExecTruth.Tool.Arguments
import ExecTruth.Tool.Failure

/-! # The dumper — shows a capture with the bytes of its instructions

    Every instruction has a line with the address it is loaded at and its bytes in
    the image of the binary.  One that does not lie in the image as a whole is shown
    without bytes, and reported. -/

namespace ExecTruth.Tool.Dump

/-- The part that reports on the run. -/
def part : String := "gt_dump"

/-- The binary and the capture. -/
def signature : Signature := ⟨[.path, .path], 2, []⟩

/-- The bytes of an image from one place to another, if both are in it and in that order. -/
def slice? (image : Array UInt8) (start stop : UInt64) : Option (List UInt8) :=
  if start ≤ stop ∧ stop.toNat ≤ image.size then
    some (image.extract start.toNat stop.toNat).toList
  else none

/-- The bytes of an instruction in an image, if it lies in there. -/
def bytesIn? (image : Array UInt8) (i : Instruction) : Option (List UInt8) :=
  (Word.wordOfOffset? i.offset).bind fun start =>
    (Word.checkedSum start i.length.toUInt64).bind (slice? image start)

/-- The line of an instruction of a binary loaded at `base`. -/
def line (base : Int64) (image : Array UInt8) (i : Instruction) : String :=
  let shown := match bytesIn? image i with
    | some bytes => Text.hexBytes bytes
    | none => "<outside of binary>"
  Word.hexOffset (i.offset + base) ++ ": " ++ shown

/-- The lines of a capture, for a binary with a digest and an image. -/
def lines (c : RichCapture) (digest : String) (image : Array UInt8) : List String :=
  let status := if digest = c.digest then "matches" else "does not match"
  ["digest: " ++ c.digest ++ " (" ++ status ++ " binary)",
   "base address: " ++ Word.hexOffset c.base,
   "instructions: " ++ toString c.table.size] ++ c.table.instructions.map (line c.base image)

/-- Reports the instructions that do not lie in the image. -/
def reportOutside (image : Array UInt8) (is : List Instruction) : Logged Unit :=
  (is.filter fun i => (bytesIn? image i).isNone).forM fun i =>
    Log.report (Log.event .warn part "instruction lies outside of the binary"
      [("offset", Word.hexOffset i.offset)])

/-- Reads the capture and the binary, and shows the lines. -/
def run (args : Arguments) : Job Failure String := do
  let binary := args.path 0
  let stored := args.path 1
  let capture ← Failure.doing ("unable to read capture " ++ stored.quoted) (RichCapture.load stored)
  let digest ← Failure.doing ("unable to hash " ++ binary.quoted) (Digest.ofFile binary)
  let _ ← Failure.doing ("unable to open " ++ binary.quoted) (Job.openSource binary)
  let image := (← Failure.lift (Job.mapFile binary)).toArray
  Job.ofLogged (reportOutside image capture.table.instructions)
  return String.join ((lines capture digest image).map (· ++ "\n"))

end ExecTruth.Tool.Dump
