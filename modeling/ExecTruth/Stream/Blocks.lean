/-! # Blocks — bytes held back on the way to a file

    What is written to a file is held back until a piece no longer fits beside it; then
    all that is held is handed on as a block, and the piece is held in its place.  At
    the end the rest is handed on.  Several files that are written to by turns hand
    their blocks on in the order that `Blocks.ofPieces` gives. -/

namespace ExecTruth

/-- A block for one of several files, told by its place among them. -/
structure Block where
  place : Nat
  bytes : List UInt8
  deriving DecidableEq, Repr

namespace Blocks

/-- The number of bytes that can be held back. -/
def size : Nat := 8192

/-- The pieces held back for a file, latest first, and the number of their bytes. -/
structure Held where
  pieces : List (List UInt8)
  count : Nat
  deriving DecidableEq, Repr

namespace Held

/-- Nothing. -/
def empty : Held := ⟨[], 0⟩

/-- The bytes that are held. -/
def bytes (h : Held) : List UInt8 := h.pieces.reverse.flatten

/-- Whether a piece fits beside what is held. -/
def fits (h : Held) (piece : List UInt8) : Bool := h.count + piece.length ≤ size

/-- What is held together with a piece. -/
def add (h : Held) (piece : List UInt8) : Held :=
  ⟨piece :: h.pieces, h.count + piece.length⟩

end Held

/-- The blocks that pieces for several files make, behind the blocks `seen`, latest
    first, when `held` is held for the files.  Pieces for no file are left out. -/
def after (seen : List Block) (held : List Held) : List (Nat × List UInt8) → List Block
  | [] => seen.reverse ++ held.zipIdx.map fun (h, place) => ⟨place, h.bytes⟩
  | (place, piece) :: rest =>
      match held[place]? with
      | none => after seen held rest
      | some h =>
          if h.fits piece then after seen (held.set place (h.add piece)) rest
          else
            after (⟨place, h.bytes⟩ :: seen) (held.set place (Held.empty.add piece)) rest

/-- The blocks that pieces for `files` files make. -/
def ofPieces (files : Nat) (pieces : List (Nat × List UInt8)) : List Block :=
  after [] (List.replicate files .empty) pieces

end Blocks

end ExecTruth
