/-! # Explained faults — a message, and the causes behind it

    Every kind of fault has a message of its own and a list of the messages of
    what caused it, outermost first.  A report shows them all: the message, and
    below it one cause to a line, numbered when there are several. -/

namespace ExecTruth

/-- Faults that can say what went wrong and why. -/
class Explained (ε : Type) where
  /-- What went wrong. -/
  message : ε → String
  /-- The messages of the causes, outermost first. -/
  causes : ε → List String

namespace Explained

variable {ε : Type} [Explained ε]

/-- A fault's message followed by its causes: the causes it gives to a fault
    that wraps it. -/
def chain (e : ε) : List String := message e :: causes e

/-- A text of several lines, the first behind `first` and the others behind `rest`. -/
def hang (first rest s : String) : String :=
  first ++ String.intercalate ("\n" ++ rest) (s.splitOn "\n")

/-- The causes as lines behind their number. -/
def numbered : Nat → List String → List String
  | _, [] => []
  | n, c :: r => hang ("    " ++ toString n ++ ": ") "       " c :: numbered (n + 1) r

/-- The part of a report below the message. -/
def causeLines : List String → String
  | [] => ""
  | [c] => "\n\nCaused by:\n" ++ hang "    " "    " c
  | cs => "\n\nCaused by:\n" ++ String.intercalate "\n" (numbered 0 cs)

/-- The whole report of a fault. -/
def report (e : ε) : String := message e ++ causeLines (causes e)

end Explained

end ExecTruth
