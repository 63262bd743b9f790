/-! # Lines — a text cut at its line ends, and a list cut at a separator

    A line ends with a line feed, and a carriage return right before that line
    feed belongs to the end as well.  What stands behind the last line end is a
    line only if it is not empty, and a carriage return there is kept. -/

namespace ExecTruth.Text

/-- A line read backwards, turned around without the carriage return that
    belongs to its end. -/
def endedLine : List Char → List Char
  | '\r' :: r => r.reverse
  | l => l.reverse

/-- The lines of a text whose current line begins with `seen`, read backwards. -/
def linesAfter (seen : List Char) : List Char → List (List Char)
  | [] => if seen.isEmpty then [] else [seen.reverse]
  | c :: r =>
      if c = '\n' then endedLine seen :: linesAfter [] r else linesAfter (c :: seen) r

/-- The lines of a text, without their ends. -/
def lines (s : List Char) : List (List Char) := linesAfter [] s

/-- The parts of a list between the occurrences of `sep`; one more than there are
    occurrences. -/
def cutAt {α : Type} [DecidableEq α] (sep : α) : List α → List (List α)
  | [] => [[]]
  | c :: r =>
      if c = sep then [] :: cutAt sep r
      else
        match cutAt sep r with
        | [] => [[c]]
        | w :: ws => (c :: w) :: ws

/-- What stands before and behind the first occurrence of `sep`. -/
def cutOnce {α : Type} [DecidableEq α] (sep : α) : List α → Option (List α × List α)
  | [] => none
  | c :: r =>
      if c = sep then some ([], r) else (cutOnce sep r).map fun (a, b) => (c :: a, b)

end ExecTruth.Text
