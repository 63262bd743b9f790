import ExecTruth.Files.Job

/-! # Failures — what ends a tool

    A failure is any fault, or a fault of which a tool says what it was doing. -/

namespace ExecTruth.Tool

/-- A message and the causes behind it. -/
structure Failure where
  message : String
  causes : List String
  deriving DecidableEq, Repr

instance : Explained Failure := ⟨Failure.message, Failure.causes⟩

namespace Failure

variable {ε α : Type} [Explained ε]

/-- A fault as it is. -/
def of (e : ε) : Failure := ⟨Explained.message e, Explained.causes e⟩

/-- A fault while doing what the message says. -/
def within (message : String) (e : ε) : Failure := ⟨message, Explained.chain e⟩

/-- The same work, ending in a failure. -/
def lift (job : Job ε α) : Job Failure α := Job.wrap of job

/-- The same work, ending in a failure that says what it was for. -/
def doing (message : String) (job : Job ε α) : Job Failure α := Job.wrap (within message) job

end Failure

end ExecTruth.Tool
