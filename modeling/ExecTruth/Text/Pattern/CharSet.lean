/-! # Character sets — the classes of characters that patterns name

    A set is described the way a pattern writes it: ranges, the operations on sets, and
    disregard of case.  Named classes know the characters of ASCII only, which are all
    that the texts under test consist of. -/

namespace ExecTruth.Text

/-- A set of characters. -/
inductive CharSet where
  | empty
  /-- The characters from one to another, by their code points. -/
  | range (first last : Nat)
  | union (a b : CharSet)
  | intersection (a b : CharSet)
  | difference (a b : CharSet)
  /-- The characters that are in one of two sets only. -/
  | symmetric (a b : CharSet)
  | complement (a : CharSet)
  /-- The characters that are in a set as a capital or as a small letter. -/
  | anyCase (a : CharSet)
  deriving DecidableEq, Repr

namespace CharSet

/-- A letter in the other case. -/
def swapCase (c : Char) : Char := if c.isUpper then c.toLower else c.toUpper

/-- Whether a character is in a set. -/
def contains : CharSet → Char → Bool
  | .empty, _ => false
  | .range first last, c => first ≤ c.toNat && c.toNat ≤ last
  | .union a b, c => a.contains c || b.contains c
  | .intersection a b, c => a.contains c && b.contains c
  | .difference a b, c => a.contains c && !b.contains c
  | .symmetric a b, c => a.contains c != b.contains c
  | .complement a, c => !a.contains c
  | .anyCase a, c => a.contains c || a.contains (swapCase c)

/-- The set of one character. -/
def single (c : Char) : CharSet := .range c.toNat c.toNat

/-- The union of ranges. -/
def ofRanges (ranges : List (Nat × Nat)) : CharSet :=
  ranges.foldr (fun (first, last) s => .union (.range first last) s) .empty

/-- The digits. -/
def digit : CharSet := .range 48 57

/-- The letters. -/
def letter : CharSet := ofRanges [(65, 90), (97, 122)]

/-- The characters of words. -/
def word : CharSet := .union digit (.union letter (single '_'))

/-- White space. -/
def blank : CharSet := ofRanges [(9, 13), (32, 32)]

/-- The class that a bracketed name stands for. -/
def named? : String → Option CharSet
  | "alnum" => some (.union digit letter)
  | "alpha" => some letter
  | "ascii" => some (.range 0 127)
  | "blank" => some (ofRanges [(9, 9), (32, 32)])
  | "cntrl" => some (ofRanges [(0, 31), (127, 127)])
  | "digit" => some digit
  | "graph" => some (.range 33 126)
  | "lower" => some (.range 97 122)
  | "print" => some (.range 32 126)
  | "punct" => some (ofRanges [(33, 47), (58, 64), (91, 96), (123, 126)])
  | "space" => some blank
  | "upper" => some (.range 65 90)
  | "word" => some word
  | "xdigit" => some (ofRanges [(48, 57), (65, 70), (97, 102)])
  | _ => none

/-- The characters of a general category, told by its first letter. -/
def category? (c : Char) : Option CharSet :=
  match c.toUpper with
  | 'C' => some (ofRanges [(0, 31), (127, 127)])
  | 'L' => some letter
  | 'M' => some .empty
  | 'N' => some digit
  | 'P' => some (ofRanges [(33, 35), (37, 42), (44, 47), (58, 59), (63, 64), (91, 93), (95, 95),
      (123, 123), (125, 125)])
  | 'S' => some (ofRanges [(36, 36), (43, 43), (60, 62), (94, 94), (96, 96), (124, 124),
      (126, 126)])
  | 'Z' => some (.range 32 32)
  | _ => none

end CharSet

end ExecTruth.Text
