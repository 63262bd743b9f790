import ExecTruth.IoFault

/-! # Sinks — writers that take what they are offered in pieces, until their room ends

    A sink takes bytes off the front of those that it is offered: not more than it has
    room for, and at least one if it has room for any.  Writing offers what is left
    over again until all of it is taken, and fails when none of it is. -/

namespace ExecTruth

/-- How many bytes a sink takes at once. -/
structure Pace where
  /-- The number of bytes taken of those offered that there is room for, when others
      were taken before. -/
  share : (before fitting : Nat) → Nat
  share_le : ∀ before fitting, share before fitting ≤ fitting
  share_pos : ∀ before fitting, 0 < fitting → 0 < share before fitting

/-- All bytes that there is room for are taken at once. -/
def Pace.whole : Pace := ⟨fun _ fitting => fitting, fun _ => Nat.le_refl, fun _ _ h => h⟩

/-- A writer with the bytes that it took. -/
structure Sink where
  taken : List UInt8
  /-- The number of bytes that can still be taken; none for any number. -/
  room : Option Nat
  deriving DecidableEq, Repr

namespace Sink

/-- The sink of a room that took nothing yet. -/
def ofRoom (room : Option Nat) : Sink := ⟨[], room⟩

/-- The number of bytes that there is room for, of those offered. -/
def fitting (s : Sink) (bytes : List UInt8) : Nat :=
  match s.room with
  | none => bytes.length
  | some room => min room bytes.length

/-- The sink with further bytes taken. -/
def add (s : Sink) (bytes : List UInt8) : Sink :=
  ⟨s.taken ++ bytes, s.room.map (· - bytes.length)⟩

end Sink

/-- Work that writes onto a sink and gives an `α` or fails with an `ε`. -/
abbrev Writing (ε α : Type) : Type := EStateM ε Sink α

namespace Writing

variable {ε : Type}

/-- Offers bytes until all of them are taken, or none. -/
def put (pace : Pace) (ofIo : IoFault → ε) (bytes : List UInt8) : Writing ε Unit := fun s =>
  if bytes = [] then .ok () s
  else
    let count := pace.share s.taken.length (s.fitting bytes)
    if count = 0 then .error (ofIo .writerStopped) s
    else put pace ofIo (bytes.drop count) (s.add (bytes.take count))
termination_by bytes.length
decreasing_by
  have hpos := List.length_pos_iff.2 ‹bytes ≠ []›
  rw [List.length_drop]
  omega

/-- The bytes that a sink of a room has in the end, and how writing onto it ends. -/
def run (room : Option Nat) (w : Writing ε Unit) : List UInt8 × Except ε Unit :=
  match w (.ofRoom room) with
  | .ok () s => (s.taken, .ok ())
  | .error e s => (s.taken, .error e)

end Writing

end ExecTruth
