import ExecTruth.IoFault

/-! # Emissions — what an encoder writes, and how it ends

    An encoder is described by the bytes it would write to a writer that takes
    everything and by the fault it ends in, if any.  Sending an emission to a
    writer that runs out shows the writer's fault whenever a byte is left over,
    and the encoder's own otherwise. -/

namespace ExecTruth

/-- The bytes an encoder writes in order, and the fault it stops with. -/
structure Emission (ε : Type) where
  bytes : List UInt8
  fault : Option ε
  deriving DecidableEq, Repr

namespace Emission

variable {ε : Type}

/-- How the encoder ends when nothing stops it. -/
def outcome (em : Emission ε) : Except ε Unit :=
  match em.fault with
  | none => .ok ()
  | some e => .error e

/-- The bytes that a writer with room for `limit` bytes takes, and how writing
    ends; no limit means that it takes them all. -/
def sendTo (limit : Option Nat) (ofIo : IoFault → ε) (em : Emission ε) :
    List UInt8 × Except ε Unit :=
  match limit with
  | none => (em.bytes, em.outcome)
  | some room =>
      if em.bytes.length ≤ room then (em.bytes, em.outcome)
      else (em.bytes.take room, .error (ofIo .writerStopped))

end Emission

end ExecTruth
