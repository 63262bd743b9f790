import ExecTruth.Text.Alphanumeric
import ExecTruth.Text.Lines
import ExecTruth.Text.Numeral
import ExecTruth.Text.Pattern.Basic

/-! # Reading patterns

    The notation is the usual one: alternatives, repetitions, groups with flags,
    classes with ranges and operations on sets, and escapes.  Counted repetition is not
    part of it, nor is looking ahead or behind, nor a reference to an earlier group. -/

namespace ExecTruth.Text

/-- A failure to read a pattern. -/
inductive PatternFault where
  /-- It is not written as a pattern. -/
  | malformed
  /-- It asks for the edge of a word. -/
  | wordEdge
  deriving DecidableEq, Repr

namespace PatternFault

/-- The wording of a fault. -/
def message : PatternFault → String
  | .malformed => "error building NFA"
  | .wordEdge => "unsupported regex feature for DFAs: cannot build DFAs for regexes with "
      ++ "Unicode word boundaries; switch to ASCII word boundaries, or heuristically enable "
      ++ "Unicode word boundaries or use a different regex engine"

end PatternFault

namespace Pattern

/-- What flags have set. -/
structure Mode where
  /-- Letters stand for themselves in any case. -/
  anyCase : Bool
  /-- The marks of the ends of the text stand for the ends of a line. -/
  byLine : Bool
  /-- A dot stands for line feeds as well. -/
  dotAll : Bool
  /-- Repetitions prefer to be seldom. -/
  seldom : Bool
  deriving DecidableEq, Repr

/-- The mode before any flag. -/
def Mode.plain : Mode := ⟨false, false, false, false⟩

/-- The mode with a flag set or taken back. -/
def Mode.set? (m : Mode) (value : Bool) : Char → Option Mode
  | 'i' => some { m with anyCase := value }
  | 'm' => some { m with byLine := value }
  | 's' => some { m with dotAll := value }
  | 'U' => some { m with seldom := value }
  | 'u' | 'x' | 'R' => some m
  | _ => none

/-- The set of a range of characters in a mode. -/
def Mode.range (m : Mode) (first last : Char) : CharSet :=
  let s := .range first.toNat last.toNat
  if m.anyCase then .anyCase s else s

/-- The fault of a notation that is not one of patterns. -/
def refuse {α : Type} : Except PatternFault α := .error .malformed

/-! ## Escapes -/

/-- What stands behind a backslash. -/
inductive Escaped where
  | char (c : Char)
  | set (s : CharSet)
  | edge (e : Edge)
  deriving DecidableEq, Repr

/-- The character whose code point the first `width` digits give. -/
def readCodePoint (width : Nat) (cs : List Char) : Except PatternFault (Escaped × List Char) :=
  let digits := cs.take width
  match numeral? 16 digits with
  | some n => if digits.length = width ∧ n.isValidChar then
      .ok (.char (Char.ofNat n), cs.drop width) else refuse
  | none => refuse

/-- Whether a character stands for itself behind a backslash. -/
def isPlainEscape (c : Char) : Bool :=
  c.toNat < 128 && !c.isAlphanum && c != '<' && c != '>'

/-- Reads what follows a backslash. -/
def readEscape : List Char → Except PatternFault (Escaped × List Char)
  | 'x' :: r => readCodePoint 2 r
  | 'u' :: r => readCodePoint 4 r
  | 'U' :: r => readCodePoint 8 r
  | 'p' :: c :: r => match CharSet.category? c with
      | some s => .ok (.set s, r)
      | none => refuse
  | 'P' :: c :: r => match CharSet.category? c with
      | some s => .ok (.set (.complement s), r)
      | none => refuse
  | 'd' :: r => .ok (.set .digit, r)
  | 'D' :: r => .ok (.set (.complement .digit), r)
  | 's' :: r => .ok (.set .blank, r)
  | 'S' :: r => .ok (.set (.complement .blank), r)
  | 'w' :: r => .ok (.set .word, r)
  | 'W' :: r => .ok (.set (.complement .word), r)
  | 'a' :: r => .ok (.char '\x07', r)
  | 'f' :: r => .ok (.char '\x0c', r)
  | 't' :: r => .ok (.char '\t', r)
  | 'n' :: r => .ok (.char '\n', r)
  | 'r' :: r => .ok (.char '\r', r)
  | 'v' :: r => .ok (.char '\x0b', r)
  | 'A' :: r => .ok (.edge .textStart, r)
  | 'z' :: r => .ok (.edge .textEnd, r)
  | 'b' :: r | 'B' :: r | '<' :: r | '>' :: r => .ok (.edge .word, r)
  | c :: r => if isPlainEscape c then .ok (.char c, r) else refuse
  | [] => refuse

/-! ## Classes -/

/-- The name of a bracketed class, whether it is negated, and what follows it. -/
def readNamed? : List Char → Option (CharSet × List Char)
  | '[' :: ':' :: r =>
      let (negated, r) := match r with
        | '^' :: r => (true, r)
        | r => (false, r)
      let name := r.takeWhile (· != ':')
      match r.drop name.length, CharSet.named? (String.ofList name) with
      | ':' :: ']' :: r, some s => some (if negated then .complement s else s, r)
      | _, _ => none
  | _ => none

/-- A character of a class, or a class behind a backslash. -/
def readItem : List Char → Except PatternFault ((Char ⊕ CharSet) × List Char)
  | '\\' :: r => do
      match ← readEscape r with
      | (.char c, r) => return (.inl c, r)
      | (.set s, r) => return (.inr s, r)
      | (.edge _, _) => refuse
  | c :: r => .ok (.inl c, r)
  | [] => refuse

/-- An item of a class or a range of characters. -/
def readRange (m : Mode) (cs : List Char) : Except PatternFault (CharSet × List Char) := do
  let (first, r) ← readItem cs
  match first, r with
  | .inl c, '-' :: ']' :: _ | .inl c, '-' :: '-' :: _ => return (m.range c c, r)
  | .inr s, '-' :: ']' :: _ | .inr s, '-' :: '-' :: _ => return (s, r)
  | .inl c, '-' :: r => do
      match ← readItem r with
      | (.inl d, r) => if c.toNat ≤ d.toNat then return (m.range c d, r) else refuse
      | (.inr _, _) => refuse
  | .inr _, '-' :: _ => refuse
  | .inl c, r => return (m.range c c, r)
  | .inr s, r => return (s, r)

/-- The set that an operation makes of the set in front of it. -/
abbrev Pending := CharSet → CharSet

/-- The characters in front of the items of a class that stand for themselves there. -/
def readFront (m : Mode) (cs : List Char) : CharSet × List Char :=
  let dashes := cs.takeWhile (· == '-')
  let r := cs.drop dashes.length
  match dashes, r with
  | [], ']' :: r => (m.range ']' ']', r)
  | [], r => (.empty, r)
  | _, r => (m.range '-' '-', r)

/-- Reads a class behind its opening bracket. -/
def readClass (m : Mode) : (fuel : Nat) → (negated : Bool) → Pending → CharSet → List Char →
    Except PatternFault (CharSet × List Char)
  | 0, _, _, _, _ => refuse
  | fuel + 1, negated, pending, seen, cs =>
      match cs with
      | [] => refuse
      | ']' :: r =>
          let s := pending seen
          .ok (if negated then .complement s else s, r)
      | '&' :: '&' :: r => readClass m fuel negated (.intersection (pending seen)) .empty r
      | '-' :: '-' :: r => readClass m fuel negated (.difference (pending seen)) .empty r
      | '~' :: '~' :: r => readClass m fuel negated (.symmetric (pending seen)) .empty r
      | '[' :: r =>
          match readNamed? cs with
          | some (s, r) => readClass m fuel negated pending (.union seen s) r
          | none => do
              let (inside, r) := match r with
                | '^' :: r => (true, r)
                | r => (false, r)
              let (front, r) := readFront m r
              let (s, r) ← readClass m fuel inside id front r
              readClass m fuel negated pending (.union seen s) r
      | cs => do
          let (s, r) ← readRange m cs
          readClass m fuel negated pending (.union seen s) r

/-! ## Groups -/

/-- Reads flags up to the mark that ends them, a colon or a bracket.  `value` tells
    whether they are set; `given` are those read so far. -/
def readFlags (m : Mode) (value : Bool) (given : List Char) : List Char →
    Except PatternFault (Mode × List Char)
  | [] => refuse
  | c :: r =>
      if c = ':' then if given.head? = some '-' then refuse else .ok (m, c :: r)
      else if c = ')' then
        if given.isEmpty ∨ given.head? = some '-' then refuse else .ok (m, c :: r)
      else if given.contains c then refuse
      else if c = '-' then readFlags m false (c :: given) r
      else
        match m.set? value c with
        | some m => readFlags m value (c :: given) r
        | none => refuse

/-- Whether a name of a group is well-formed. -/
def isGroupName : List Char → Bool
  | [] => false
  | c :: r => (c == '_' || isAlphanumeric c && !c.isDigit)
      && r.all fun c => isAlphanumeric c || c == '_' || c == '.' || c == '[' || c == ']'

/-- What the opening of a group asks for. -/
inductive Opening where
  /-- A group in a mode. -/
  | group (m : Mode)
  /-- A mode for what follows in the group around it. -/
  | rest (m : Mode)
  deriving DecidableEq, Repr

/-- Reads a group's name and the mark behind it. -/
def readName (m : Mode) (cs : List Char) : Except PatternFault (Opening × List Char) :=
  match cutOnce '>' cs with
  | some (name, r) => if isGroupName name then .ok (.group m, r) else refuse
  | none => refuse

/-- Reads the opening of a group behind its bracket. -/
def readOpening (m : Mode) : List Char → Except PatternFault (Opening × List Char)
  | '?' :: '=' :: _ | '?' :: '!' :: _ | '?' :: '<' :: '=' :: _ | '?' :: '<' :: '!' :: _ => refuse
  | '?' :: 'P' :: '<' :: r | '?' :: '<' :: r => readName m r
  | '?' :: r => do
      match ← readFlags m true [] r with
      | (m, ':' :: r) => return (.group m, r)
      | (m, r) => return (.rest m, r.drop 1)
  | r => .ok (.group m, r)

/-! ## Patterns -/

/-- Patterns one behind the other, the last one given first. -/
def inOrder (latest : List Pattern) : Pattern :=
  match latest with
  | [] => .nothing
  | p :: ps => ps.foldl (fun rest p => .seq p rest) p

/-- Alternatives, the last one given first. -/
def alternatives (latest : Pattern) (earlier : List Pattern) : Pattern :=
  earlier.foldl (fun rest p => .either p rest) latest

/-- A pattern with a mark of repetition behind it. -/
def repeated (mark : Char) (often : Bool) (p : Pattern) : Pattern :=
  match mark with
  | '?' => if often then .either p .nothing else .either .nothing p
  | '*' => .many often p
  | _ => .seq p (.many often p)

/-- Whether a character is a mark of repetition. -/
def isRepetition (c : Char) : Bool := c == '*' || c == '+' || c == '?'

/-- The pattern of what stands behind a backslash. -/
def Escaped.pattern (m : Mode) : Escaped → Pattern
  | .char c => .one (m.range c c)
  | .set s => .one s
  | .edge e => .edge e

/-- The pattern of a character that is no mark of its own. -/
def charPattern (m : Mode) (c : Char) : Pattern :=
  match c with
  | '.' => .one (if m.dotAll then .complement .empty else .complement (.single '\n'))
  | '^' => .edge (if m.byLine then .lineStart else .textStart)
  | '$' => .edge (if m.byLine then .lineEnd else .textEnd)
  | c => .one (m.range c c)

/-- Reads up to the end of a group, behind alternatives and items that are given latest
    first. -/
def readGroup : (fuel : Nat) → Mode → (earlier items : List Pattern) → List Char →
    Except PatternFault (Pattern × List Char)
  | 0, _, _, _, _ => refuse
  | fuel + 1, m, earlier, items, cs =>
      match cs with
      | [] | ')' :: _ => .ok (alternatives (inOrder items) earlier, cs)
      | '|' :: r => readGroup fuel m (inOrder items :: earlier) [] r
      | '(' :: r => do
          match ← readOpening m r with
          | (.group inner, r) =>
              match ← readGroup fuel inner [] [] r with
              | (p, ')' :: r) => readGroup fuel m earlier (p :: items) r
              | _ => refuse
          | (.rest m, r) =>
              if r.head?.any isRepetition then refuse else readGroup fuel m earlier items r
      | '[' :: r => do
          let (negated, r) := match r with
            | '^' :: r => (true, r)
            | r => (false, r)
          let (front, r) := readFront m r
          let (s, r) ← readClass m fuel negated id front r
          readGroup fuel m earlier (.one s :: items) r
      | '\\' :: r => do
          let (e, r) ← readEscape r
          readGroup fuel m earlier (e.pattern m :: items) r
      | '{' :: _ => refuse
      | c :: r =>
          if isRepetition c then
            match items with
            | [] => refuse
            | p :: items =>
                let (seldom, r) := match r with
                  | '?' :: r => (true, r)
                  | r => (false, r)
                readGroup fuel m earlier (repeated c (seldom == m.seldom) p :: items) r
          else readGroup fuel m earlier (charPattern m c :: items) r

/-- Reads a pattern. -/
def ofString (s : String) : Except PatternFault Pattern := do
  let cs := s.toList
  match ← readGroup (2 * cs.length + 2) .plain [] [] cs with
  | (p, []) => if p.asksForWords then .error .wordEdge else return p
  | _ => refuse

end Pattern

end ExecTruth.Text
