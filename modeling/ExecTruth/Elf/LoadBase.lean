import ExecTruth.Elf.Section
import ExecTruth.Files.Job

/-! # Load bases — what is added to a file offset to give the address it is loaded at

    The load base of a binary is the address of its first section of code less
    that section's offset, modulo 2 ^ 64. -/

namespace ExecTruth

/-- A failure to tell the load base of a binary. -/
inductive LoadBaseFault where
  /-- The headers are not those of an ELF file. -/
  | headers (fault : Elf.HeaderFault)
  /-- No section is both allocated and executable. -/
  | noCode
  /-- The binary cannot be read. -/
  | io (fault : IoFault)
  deriving DecidableEq, Repr

namespace LoadBaseFault

/-- The wording of a load base fault. -/
def message : LoadBaseFault → String
  | .headers _ => "unable to parse ELF headers"
  | .noCode => "binary has no section that is both allocated and executable"
  | .io _ => "IO Error:"

/-- The causes of a load base fault. -/
def causes : LoadBaseFault → List String
  | .headers fault => Explained.chain fault
  | .noCode => []
  | .io fault => Explained.chain fault

instance : Explained LoadBaseFault := ⟨message, causes⟩

end LoadBaseFault

/-- The load base of the bytes of a binary. -/
def loadBase (bytes : List UInt8) : Except LoadBaseFault Int64 :=
  match Elf.sections bytes with
  | .error fault => .error (.headers fault)
  | .ok sections =>
      match sections.find? (·.isCode) with
      | none => .error .noCode
      | some s => .ok (s.address - s.offset).toInt64

/-- The load base of the binary at a path. -/
def loadBaseOf (p : Path) : Job LoadBaseFault Int64 := do
  Job.ofExcept (loadBase (← Job.wrap .io (Job.mapFile p)))

end ExecTruth
