import ExecTruth.Log.FieldTest
import ExecTruth.Text.Blank
import ExecTruth.Text.Lines
import ExecTruth.Text.Utf8

/-! # Rules — what is shown of some events

    A rule is written `part[span{field=value}]=level`, and any piece may be left
    out.  It is about the events of the parts whose name begins so, or about those
    inside spans of that name with such a field, and gives the least important level
    that is shown.  Without a level it shows all; a level alone is about everything.

    A rule is cut into its pieces without the blanks around it, but the pieces are
    taken from the same places of the text with those blanks. -/

namespace ExecTruth.Log

/-- What is shown of some events. -/
structure Rule where
  /-- The beginning of the name of a part. -/
  part? : Option String
  /-- The name of a span. -/
  span? : Option String
  /-- A test of the fields. -/
  test? : Option FieldTest
  /-- The number of the least important level shown; zero shows nothing. -/
  upTo : Nat
  deriving DecidableEq, Repr

/-- A failure to read a rule. -/
inductive RuleFault where
  /-- It is not written as a rule. -/
  | malformed
  /-- Its level is none. -/
  | level
  /-- A value is no pattern. -/
  | pattern (fault : Text.PatternFault)
  /-- A piece of it begins or ends inside a character. -/
  | torn
  deriving DecidableEq, Repr

/-- The wording of a fault. -/
def RuleFault.message : RuleFault → String
  | .malformed | .torn => "invalid filter directive"
  | .level => "error parsing level filter: expected one of \"off\", \"error\", \"warn\", "
      ++ "\"info\", \"debug\", \"trace\", or a number 0-5"
  | .pattern fault => "invalid field filter: " ++ fault.message

namespace Rule

/-- The number of the level that shows all. -/
def everything : Nat := 5

/-- The number of a level, given by its name in any case or as a number. -/
def levelNumber? (s : String) : Option Nat :=
  match (Text.word? 10 s.toList).map UInt64.toNat with
  | some n => if n ≤ everything then some n else none
  | none =>
      match s.toLower with
      | "off" => some 0
      | "error" => some 1
      | "warn" => some 2
      | "info" => some 3
      | "debug" => some 4
      | "trace" => some 5
      | _ => none

/-- A rule about what happens in spans. -/
def isScoped (r : Rule) : Bool := r.span?.isSome || r.test?.isSome

/-- A rule that decides on events by themselves. -/
def isPlain (r : Rule) : Bool := r.span?.isNone && r.test?.all (·.wanted?.isNone)

/-- Whether two rules are about the same. -/
def sameSubject (r r' : Rule) : Bool :=
  r.part? == r'.part? && r.span? == r'.span? && r.test? == r'.test?

/-- Whether a rule may be about a part. -/
def coversPart (r : Rule) (part : String) : Bool := r.part?.all (·.isPrefixOf part)

/-- Whether a plain rule is about an event. -/
def coversEvent (r : Rule) (e : Event) : Bool :=
  r.coversPart e.part && r.test?.all fun t => e.fieldNames.contains t.name

/-- Whether a rule is about spans like this one, with any values. -/
def coversSpan (r : Rule) (s : Span) : Bool :=
  r.coversPart s.part && r.span?.all (· == s.name)
    && r.test?.all fun t => s.fields.any (·.name == t.name)

/-- Whether a rule is about this span. -/
def holdsIn (r : Rule) (s : Span) : Bool :=
  r.coversSpan s && r.test?.all fun t => t.holds s.fields

/-- How closely a plain rule describes what it is about. -/
def closeness (r : Rule) : Nat × String :=
  ((r.part?.map fun p => p.utf8ByteSize + 1).getD 0, (r.test?.map (·.name)).getD "")

/-- Whether a rule describes what it is about more closely than another: by more of the
    part's name, or by a field. -/
def isCloser (r r' : Rule) : Bool :=
  let (part, field) := r.closeness
  let (part', field') := r'.closeness
  part' < part || part' == part &&
    (r'.test?.isNone && r.test?.isSome || r'.test?.isSome && r.test?.isSome && field' < field)

/-! ## Reading -/

/-- A text and the position in it of what is still to be read. -/
structure Cursor where
  whole : List UInt8
  position : Nat
  rest : List Char

namespace Cursor

/-- Whether a character of the text begins at a position, or the text ends there. -/
def isBoundary (c : Cursor) (position : Nat) : Bool :=
  match c.whole[position]? with
  | none => position == c.whole.length
  | some b => b < 0x80 || 0xC0 ≤ b

/-- The piece of the text between two positions. -/
def piece (c : Cursor) (start stop : Nat) : Except RuleFault String :=
  if c.isBoundary start && c.isBoundary stop && start ≤ stop then
    .ok (Text.Utf8.decodeLossy ((c.whole.drop start).take (stop - start)))
  else .error .torn

/-- The piece of the text from a position on. -/
def pieceFrom (c : Cursor) (start : Nat) : Except RuleFault String :=
  c.piece start (max start c.whole.length)

/-- The position of the next of some marks, which one it is, and the cursor behind it. -/
def next? (marks : List Char) (c : Cursor) : Option (Nat × Char × Cursor) :=
  let front := c.rest.takeWhile fun x => !marks.contains x
  let position := c.position + (Text.Utf8.encode (String.ofList front)).length
  match c.rest.drop front.length with
  | [] => none
  | mark :: rest => some (position, mark, ⟨c.whole, position + 1, rest⟩)

end Cursor

/-- Reads a level behind its equals sign. -/
def readLevel (c : Cursor) : Except RuleFault Nat := do
  let level ← c.pieceFrom c.position
  if level.isEmpty then return everything
  match levelNumber? level with
  | some n => return n
  | none => throw .level

/-- Reads what follows the bracket that closes a span. -/
def readBehindSpan (c : Cursor) : Except RuleFault Nat :=
  match c.rest with
  | [] => .ok everything
  | '=' :: rest => readLevel ⟨c.whole, c.position + 1, rest⟩
  | _ => .error .malformed

/-- Reads a span behind its opening bracket. -/
def readSpan (part? : Option String) (c : Cursor) : Except RuleFault Rule := do
  match c.next? [']', '\x7b'] with
  | none => throw .malformed
  | some (stop, ']', behind) =>
      let name ← c.piece c.position stop
      return ⟨part?, some name, none, ← readBehindSpan behind⟩
  | some (stop, _, inside) =>
      let name ← c.piece c.position stop
      match inside.next? ['\x7d'] with
      | none => throw .malformed
      | some (stop, _, behind) =>
          let field ← inside.piece inside.position stop
          if field.isEmpty then throw .malformed
          let test ← (FieldTest.ofString field).mapError .pattern
          match behind.rest with
          | ']' :: rest =>
              let span? := if name.isEmpty then none else some name
              let upTo ← readBehindSpan ⟨behind.whole, behind.position + 1, rest⟩
              return ⟨part?, span?, some test, upTo⟩
          | _ => throw .malformed

/-- Whether a character may begin a rule that begins with a part or a level. -/
def isFirst (c : Char) : Bool := c == '-' || c == ':' || c == '_' || Text.isAlphanumeric c

/-- Reads a rule. -/
def ofString (s : String) : Except RuleFault Rule := do
  let body := Text.trim s.toList
  let c : Cursor := ⟨Text.Utf8.encode s, 0, body⟩
  match body with
  | [] => throw .malformed
  | '[' :: rest => readSpan none ⟨c.whole, 1, rest⟩
  | first :: _ =>
      if !isFirst first then throw .malformed
      match c.next? ['=', '['] with
      | some (stop, '=', behind) =>
          let part ← c.piece 0 stop
          return ⟨some part, none, none, ← readLevel behind⟩
      | some (stop, _, inside) => readSpan (some (← c.piece 0 stop)) inside
      | none =>
          match levelNumber? s with
          | some n => return ⟨none, none, none, n⟩
          | none => return ⟨some s, none, none, everything⟩

end Rule

end ExecTruth.Log
