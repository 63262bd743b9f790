import ExecTruth.IoFault
import ExecTruth.Log.Logged
import ExecTruth.Scoring.Counts
import ExecTruth.Text.Utf8

/-! # Details — the lines that list each fault of a static disassembly

    Confirmed false positives, false negatives and unknown starts have a list each,
    in this order; a list may be left out only together with those behind it.
    The details come in ascending order of the static starts, and those of missed
    instructions behind them.  Every list has room for a number of bytes, or for
    any; the first line that does not fit is cut off and ends the writing. -/

namespace ExecTruth

/-- The list that a detail belongs to, by its place. -/
inductive DetailKind where
  | falsePositive
  | falseNegative
  | unknown
  deriving DecidableEq, Repr

/-- The place of a list among the lists. -/
def DetailKind.place : DetailKind → Nat
  | .falsePositive => 0
  | .falseNegative => 1
  | .unknown => 2

/-- The number of lists there can be. -/
def maxDetailLists : Nat := 3

/-- A line of a list. -/
structure Detail where
  kind : DetailKind
  /-- The pieces that the line is written in. -/
  pieces : List String
  deriving DecidableEq, Repr

/-- The line of a detail, with its end. -/
def Detail.line (d : Detail) : String := String.join d.pieces

namespace GroundTruth

/-- The address of an instruction, as it is shown. -/
def address (truth : GroundTruth) (i : Instruction) : List String :=
  Word.hexPieces (i.offset + truth.base)

/-- The detail of a static start with a verdict. -/
def verdictDetail? (truth : GroundTruth) (static : Int64) : Verdict → Option Detail
  | .truePositive => none
  | .confirmedFalse container =>
      some ⟨.falsePositive, Word.hexPieces static ++ " in " :: truth.address container
        ++ [" len ", toString container.length.toNat, "\n"]⟩
  | .unknown (some predecessor) =>
      some ⟨.unknown, Word.hexPieces static ++ " after " :: truth.address predecessor ++ ["\n"]⟩
  | .unknown none => some ⟨.unknown, Word.hexPieces static ++ [" before first\n"]⟩

/-- The detail of a missed instruction. -/
def missedDetail (truth : GroundTruth) (i : Instruction) : Detail :=
  ⟨.falseNegative, truth.address i ++ [" len ", toString i.length.toNat, "\n"]⟩

/-- All details in the order they are written. -/
def details (truth : GroundTruth) (statics : OffsetSet) : List Detail :=
  (statics.keys.filterMap fun s => truth.verdictDetail? s (truth.verdict s))
    ++ (truth.missed statics).map truth.missedDetail

end GroundTruth

/-- A list while it is written. -/
structure DetailList where
  /-- The lines written so far, latest first. -/
  lines : List (List UInt8)
  /-- The number of their bytes. -/
  size : Nat
  /-- The number of bytes that it can hold; none for any number. -/
  room : Option Nat
  deriving DecidableEq, Repr

namespace DetailList

/-- The empty list of a room. -/
def ofRoom (room : Option Nat) : DetailList := ⟨[], 0, room⟩

/-- What is written in a list. -/
def bytes (l : DetailList) : List UInt8 := l.lines.reverse.flatten

/-- The list with a line behind the others. -/
def append (l : DetailList) (line : List UInt8) : DetailList :=
  { l with lines := line :: l.lines, size := l.size + line.length }

/-- The list with a line, cut off where the room ends, and whether the line fitted. -/
def add (l : DetailList) (line : String) : DetailList × Bool :=
  let bytes := Text.Utf8.encode line
  match l.room with
  | none => (l.append bytes, true)
  | some room =>
      if l.size + bytes.length ≤ room then (l.append bytes, true)
      else (l.append (bytes.take (room - l.size)), false)

/-- Writes details to the lists, up to the first that does not fit.  Gives that one and
    those behind it. -/
def write (lists : List DetailList) : List Detail → List DetailList × List Detail
  | [] => (lists, [])
  | d :: ds =>
      match lists[d.kind.place]? with
      | none => write lists ds
      | some l =>
          let (l, fits) := l.add d.line
          let lists := lists.set d.kind.place l
          if fits then write lists ds else (lists, d :: ds)

end DetailList

namespace GroundTruth

/-- The lists of the given rooms with the details that fit, and the details from the first
    that does not fit on.  There are no lists behind those that there can be. -/
def written (truth : GroundTruth) (statics : OffsetSet) (rooms : List (Option Nat)) :
    List DetailList × List Detail :=
  DetailList.write ((rooms.take maxDetailLists).map .ofRoom) (truth.details statics)

/-- The details in front of the first that does not fit in its list. -/
def listed (truth : GroundTruth) (statics : OffsetSet) (rooms : List (Option Nat)) :
    List Detail :=
  let details := truth.details statics
  details.take (details.length - (truth.written statics rooms).2.length)

/-- Scores static starts, with the details in lists of the given rooms.  Gives what is
    written in each list, and the numbers, or the fault of the list that ran out of room.
    Lists behind those that there can be stay empty. -/
def evaluate (truth : GroundTruth) (statics : OffsetSet) (rooms : List (Option Nat)) :
    List (List UInt8) × Except IoFault Counts :=
  let (lists, left) := truth.written statics rooms
  let unused := (rooms.drop maxDetailLists).map fun _ => []
  (lists.map DetailList.bytes ++ unused,
    if left.isEmpty then .ok (truth.counts statics) else .error .writerStopped)

end GroundTruth

/-- The part that reports on evaluations. -/
def evaluatePart : String := "groundtruth::evaluate"

/-- Reports the numbers of an evaluation whose details are all written. -/
def Counts.reportFinished (c : Counts) : Logged Unit :=
  Log.report (Log.event .debug evaluatePart "evaluation finished" [("counts", c.describe)])

end ExecTruth
