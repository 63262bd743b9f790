import ExecTruth.Log.Event
import ExecTruth.Text.Pattern.Reader

/-! # Field tests — what a rule asks of the fields of an event or a span

    A test names a field that has to be there, and may ask for its value: a number is
    compared with numbers, and what is no number is a pattern for the text of others. -/

namespace ExecTruth.Log

/-- What a test asks of a value. -/
inductive Wanted where
  | word (n : Nat)
  /-- A text that the pattern written so matches. -/
  | matching (source : String) (p : Text.Pattern)
  /-- A value of a kind that is never reported: a truth value, or a number that is
      negative or not whole. -/
  | unheard
  deriving DecidableEq, Repr

namespace Wanted

/-- A text without the sign in front of it. -/
def unsigned : List Char → List Char
  | '+' :: r | '-' :: r => r
  | s => s

/-- Whether characters are digits, and at least one if `some` is asked for. -/
def areDigits (needed : Bool) (s : List Char) : Bool := s.all Char.isDigit && !(needed && s.isEmpty)

/-- Whether characters are a decimal fraction. -/
def isFraction (s : List Char) : Bool :=
  match Text.cutOnce '.' s with
  | none => areDigits true s
  | some (whole, part) =>
      areDigits false whole && areDigits false part && !(whole.isEmpty && part.isEmpty)

/-- Whether characters are a decimal number, perhaps with an exponent. -/
def isDecimal (s : List Char) : Bool :=
  let s := (unsigned s).map Char.toLower
  let names := ["inf", "infinity", "nan"].map String.toList
  names.contains s ||
    match Text.cutOnce 'e' s with
    | none => isFraction s
    | some (front, exponent) => isFraction front && areDigits true (unsigned exponent)

/-- Reads what a test asks for. -/
def ofString (s : String) : Except Text.PatternFault Wanted :=
  if s = "true" ∨ s = "false" then .ok .unheard
  else
    match Text.word? 10 s.toList with
    | some n => .ok (.word n.toNat)
    | none =>
        if isDecimal s.toList then .ok .unheard
        else (Text.Pattern.ofString s).map (.matching s)

/-- Whether a value is as asked for. -/
def holds : Wanted → Value → Bool
  | .word n, .word m => n == m
  | .matching _ p, .text s => p.isMatch s
  | _, _ => false

end Wanted

/-- A test of the fields of an event or a span. -/
structure FieldTest where
  /-- The name of the field. -/
  name : String
  /-- What its value has to be, if that matters. -/
  wanted? : Option Wanted
  deriving DecidableEq, Repr

namespace FieldTest

/-- Reads a test: a name, and a value behind an equals sign. -/
def ofString (s : String) : Except Text.PatternFault FieldTest :=
  match (Text.cutAt '=' s.toList).map String.ofList with
  | name :: value :: _ => (Wanted.ofString value).map fun w => ⟨name, some w⟩
  | _ => .ok ⟨s, none⟩

/-- Whether the fields have what the test asks for. -/
def holds (t : FieldTest) (fields : List Field) : Bool :=
  match t.wanted? with
  | none => fields.any (·.name == t.name)
  | some w => fields.any fun f => f.name == t.name && w.holds f.value

end FieldTest

end ExecTruth.Log
