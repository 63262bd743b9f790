import ExecTruth.IoFault

/-! # Sources — bytes that arrive in pieces and then end or fail

    A source hands out its bytes cut into chunks in any way.  `take` asks for an
    exact number of bytes and does not depend on the cuts; asking past the last
    byte meets the end, or the fault that the source ends in. -/

namespace ExecTruth

/-- The bytes a reader will hand out, and what it meets behind them. -/
structure Source where
  /-- The bytes still to come, as they are cut. -/
  chunks : List (List UInt8)
  /-- What reading past the last byte runs into; none for a plain end. -/
  fault : Option IoFault
  deriving Repr

namespace Source

/-- The bytes at once, and then the end. -/
def ofBytes (bytes : List UInt8) : Source := ⟨[bytes], none⟩

/-- A source without bytes that fails. -/
def failing (fault : IoFault) : Source := ⟨[], some fault⟩

/-- The bytes in chunks of `size`, the last one shorter; `fuel` chunks at most. -/
def chunksOf (size : Nat) : (fuel : Nat) → List UInt8 → List (List UInt8)
  | 0, _ => []
  | _ + 1, [] => []
  | fuel + 1, bytes => bytes.take size :: chunksOf size fuel (bytes.drop size)

/-- The bytes in chunks of `size` bytes, and then the end or a fault.  With chunks of no
    bytes it looks as if the source had ended, unless there is no byte to hand out. -/
def cut (size : Nat) (bytes : List UInt8) (fault : Option IoFault) : Source :=
  if size = 0 ∧ bytes ≠ [] then ⟨[], none⟩ else ⟨chunksOf size bytes.length bytes, fault⟩

/-- The bytes still to come. -/
def bytes (s : Source) : List UInt8 := s.chunks.flatten

/-- The first `n` bytes of chunks, and the chunks behind them. -/
def takeChunks (n : Nat) : List (List UInt8) → Option (List UInt8 × List (List UInt8))
  | [] => if n = 0 then some ([], []) else none
  | c :: cs =>
      let front := c.take n
      if front.length = n then some (front, c.drop n :: cs)
      else (takeChunks (n - front.length) cs).map fun (more, rest) => (front ++ more, rest)

/-- What keeps a source from giving the bytes asked for. -/
inductive Shortage where
  /-- The bytes end first. -/
  | ended
  /-- The source fails first. -/
  | failed (fault : IoFault)
  deriving DecidableEq, Repr

/-- What reading past the last byte runs into. -/
def shortage (s : Source) : Shortage :=
  match s.fault with
  | none => .ended
  | some fault => .failed fault

/-- The next `n` bytes, and the source behind them. -/
def take (n : Nat) (s : Source) : Except Shortage (List UInt8 × Source) :=
  match takeChunks n s.chunks with
  | some (front, rest) => .ok (front, ⟨rest, s.fault⟩)
  | none => .error s.shortage

/-- All bytes, if the source does not fail. -/
def readAll (s : Source) : Except IoFault (List UInt8) :=
  match s.fault with
  | none => .ok s.bytes
  | some fault => .error fault

end Source

end ExecTruth
