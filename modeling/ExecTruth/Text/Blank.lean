/-! # Blanks — the white space of a text, and words between it

    The blanks are the twenty-five code points with the Unicode property
    White_Space.  A word is a maximal run of other characters. -/

namespace ExecTruth.Text

/-- The property White_Space. -/
def isBlank (c : Char) : Bool :=
  let n := c.toNat
  (9 ≤ n && n ≤ 13) || n == 0x20 || n == 0x85 || n == 0xA0 || n == 0x1680
    || (0x2000 ≤ n && n ≤ 0x200A) || n == 0x2028 || n == 0x2029 || n == 0x202F
    || n == 0x205F || n == 0x3000

/-- A text without the blanks in front of it. -/
def trimStart (s : List Char) : List Char := s.dropWhile isBlank

/-- A text without the blanks behind it. -/
def trimEnd (s : List Char) : List Char := (s.reverse.dropWhile isBlank).reverse

/-- A text without the blanks around it. -/
def trim (s : List Char) : List Char := trimEnd (trimStart s)

/-- The first word of a text, and what follows the one blank that ends it. -/
def nextWord (s : List Char) : Option (List Char × List Char) :=
  match trimStart s with
  | [] => none
  | c :: r =>
      some ((c :: r).takeWhile (!isBlank ·), ((c :: r).dropWhile (!isBlank ·)).drop 1)

end ExecTruth.Text
