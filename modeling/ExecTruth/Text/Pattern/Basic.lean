import ExecTruth.Text.Pattern.CharSet

/-! # Patterns — regular expressions with preferences

    Where a pattern leaves a choice, it prefers one side.  Matching a text follows all
    ways through the pattern at once, in the order of preference, and when a way is
    through with the pattern before the text ends, those less preferred are given up.
    A text matches if a way that is left is through with the pattern at its end. -/

namespace ExecTruth.Text

/-- A condition on the place between two characters. -/
inductive Edge where
  | textStart
  | textEnd
  | lineStart
  | lineEnd
  /-- The edge of a word, which no pattern for tests can ask for. -/
  | word
  deriving DecidableEq, Repr

/-- Whether a condition holds between two characters, of which there may be none. -/
def Edge.holds (before after : Option Char) : Edge → Bool
  | .textStart => before.isNone
  | .textEnd => after.isNone
  | .lineStart => before.all (· == '\n')
  | .lineEnd => after.all (· == '\n')
  | .word => false

/-- A regular expression. -/
inductive Pattern where
  /-- Matches the empty text. -/
  | nothing
  | one (set : CharSet)
  | edge (e : Edge)
  | seq (a b : Pattern)
  /-- Either of two, the first one rather. -/
  | either (a b : Pattern)
  /-- Any number of times, as often as possible or as seldom. -/
  | many (often : Bool) (a : Pattern)
  /-- A repetition that has not gone on in the text since it began. -/
  | begun (often : Bool) (a : Pattern)
  deriving DecidableEq, Repr

namespace Pattern

/-- What a way through a pattern needs next. -/
inductive Head where
  /-- Nothing; it is through. -/
  | through
  /-- A character, and behind it the patterns of the list. -/
  | needs (set : CharSet) (rest : List Pattern)
  deriving DecidableEq, Repr

/-- A number that opening a pattern makes smaller. -/
def weight : Pattern → Nat
  | .nothing | .one _ | .edge _ | .begun _ _ => 1
  | .seq a b | .either a b => a.weight + b.weight + 1
  | .many _ a => a.weight + 2

/-- The weight of patterns together. -/
def weightOf : List Pattern → Nat
  | [] => 0
  | p :: ps => p.weight + weightOf ps

/-- The ways through patterns in order of preference, between two characters. -/
def heads (before after : Option Char) : List Pattern → List Head
  | [] => [.through]
  | .nothing :: rest => heads before after rest
  | .one set :: rest => [.needs set rest]
  | .edge e :: rest => if e.holds before after then heads before after rest else []
  | .seq a b :: rest => heads before after (a :: b :: rest)
  | .either a b :: rest => heads before after (a :: rest) ++ heads before after (b :: rest)
  | .many often a :: rest =>
      let again := heads before after (a :: .begun often a :: rest)
      let done := heads before after rest
      if often then again ++ done else done ++ again
  | .begun _ _ :: rest => heads before after rest
termination_by ps => weightOf ps
decreasing_by all_goals simp only [weightOf, weight]; omega

/-- A pattern after a character. -/
def goneOn : Pattern → Pattern
  | .begun often a => .many often a
  | a => a

/-- What is left of a way after a character. -/
def Head.step? (c : Char) : Head → Option (List Pattern)
  | .through => none
  | .needs set rest => if set.contains c then some (rest.map goneOn) else none

/-- Whether one of the ways, in order of preference, is through with the text behind a
    character. -/
def matchesFrom (before : Option Char) (ways : List (List Pattern)) : List Char → Bool
  | [] => (ways.flatMap (heads before none)).contains .through
  | c :: rest =>
      let kept := (ways.flatMap (heads before (some c))).takeWhile (· != .through)
      matchesFrom (some c) (kept.filterMap (Head.step? c)).eraseDups rest

/-- Whether a text matches a pattern from its beginning to its end. -/
def isMatch (p : Pattern) (s : String) : Bool := matchesFrom none [[p]] s.toList

/-- Whether a pattern asks for the edge of a word. -/
def asksForWords : Pattern → Bool
  | .nothing | .one _ => false
  | .edge e => e == .word
  | .seq a b | .either a b => a.asksForWords || b.asksForWords
  | .many _ a | .begun _ a => a.asksForWords

end Pattern

end ExecTruth.Text
