import ExecTruth.Capture.Instruction
import ExecTruth.Word.Offset

/-! # Verdicts — what a capture says about a static instruction start

    A static start is an absolute address; the load base is taken off before it is
    looked up.  It is true if an executed instruction starts there.  Otherwise the
    executed instruction next below it decides: the start is wrong if it lies inside
    that instruction, and nothing is known if it does not.  An executed instruction
    whose address is not among the static starts was missed. -/

namespace ExecTruth

/-- The executed instructions of a binary, and the base its static starts have. -/
structure GroundTruth where
  table : InstructionTable
  base : Int64

/-- What a capture says about a static instruction start. -/
inductive Verdict where
  /-- An executed instruction starts there. -/
  | truePositive
  /-- It lies inside an executed instruction. -/
  | confirmedFalse (container : Instruction)
  /-- Nothing was executed there; the executed instruction next below, if any. -/
  | unknown (predecessor : Option Instruction)
  deriving DecidableEq, Repr

namespace GroundTruth

/-- Whether an offset lies inside the instruction next below it. -/
def covers (i : Instruction) (offset : Int64) : Bool :=
  match Word.checkedSub offset i.offset with
  | none => false
  | some distance => distance.toInt < i.length.toNat

/-- The verdict on a static start. -/
def verdict (truth : GroundTruth) (static : Int64) : Verdict :=
  match Word.checkedSub static truth.base with
  | none => .unknown none
  | some offset =>
      if truth.table.contains offset then .truePositive
      else
        match truth.table.below? offset with
        | none => .unknown none
        | some (start, length) =>
            let predecessor : Instruction := ⟨start, length⟩
            if covers predecessor offset then .confirmedFalse predecessor
            else .unknown (some predecessor)

/-- Whether a static start names an executed instruction. -/
def isFound (truth : GroundTruth) (statics : OffsetSet) (i : Instruction) : Bool :=
  match Word.checkedAdd i.offset truth.base with
  | none => false
  | some address => statics.contains address

/-- The executed instructions that no static start names, in ascending order. -/
def missed (truth : GroundTruth) (statics : OffsetSet) : List Instruction :=
  truth.table.instructions.filter fun i => !truth.isFound statics i

end GroundTruth

end ExecTruth
