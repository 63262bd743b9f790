/-! # Log events — what a run reports on the way

    An event has a level, the name of the part that reports it, a message or
    none, and named values.  Its line shows the level, the spans it happened in,
    that name, the message, and the values.  Spans have a level and a part as well,
    so that they can be left out of a line. -/

namespace ExecTruth.Log

/-- How important an event is. -/
inductive Level where
  | error
  | warn
  | info
  | debug
  | trace
  deriving DecidableEq, Repr

/-- The levels by number, the most important first. -/
def Level.rank : Level → Nat
  | .error => 1
  | .warn => 2
  | .info => 3
  | .debug => 4
  | .trace => 5

/-- The name a line shows for a level. -/
def Level.label : Level → String
  | .error => "ERROR"
  | .warn => "WARN"
  | .info => "INFO"
  | .debug => "DEBUG"
  | .trace => "TRACE"

/-- A value that is reported. -/
inductive Value where
  | word (n : Nat)
  /-- A value of any other kind, as it is shown. -/
  | text (s : String)
  deriving DecidableEq, Repr

/-- A value as it is shown. -/
def Value.render : Value → String
  | .word n => toString n
  | .text s => s

/-- A named value. -/
structure Field where
  name : String
  value : Value
  deriving DecidableEq, Repr

/-- A field as `name=value`. -/
def Field.render (f : Field) : String := f.name ++ "=" ++ f.value.render

/-- A stretch of a run that events happen in. -/
structure Span where
  level : Level
  /-- The part of the program that it is a stretch of. -/
  part : String
  name : String
  fields : List Field
  deriving DecidableEq, Repr

/-- A span as `name{field field}`. -/
def Span.render (s : Span) : String :=
  s.name ++ "\x7b" ++ String.intercalate " " (s.fields.map Field.render) ++ "\x7d"

/-- One report. -/
structure Event where
  level : Level
  /-- The part of the program that reports. -/
  part : String
  message : Option String
  fields : List Field
  /-- The spans it happened in, outermost first. -/
  spans : List Span
  deriving DecidableEq, Repr

/-- A span with values. -/
def span (level : Level) (part name : String) (fields : List (String × Value)) : Span :=
  ⟨level, part, name, fields.map fun (n, v) => ⟨n, v⟩⟩

/-- The event as it happened in a further span around it. -/
def Event.within (s : Span) (e : Event) : Event := { e with spans := s :: e.spans }

/-- An event outside of any span. -/
def event (level : Level) (part message : String) (fields : List (String × String)) : Event :=
  ⟨level, part, some message, fields.map fun (n, v) => ⟨n, .text v⟩, []⟩

/-- An event that has values only. -/
def bareEvent (level : Level) (part : String) (fields : List (String × String)) : Event :=
  ⟨level, part, none, fields.map fun (n, v) => ⟨n, .text v⟩, []⟩

/-- The name that a message has among the fields of its event. -/
def messageName : String := "message"

/-- The names of the fields of an event, its message among them. -/
def Event.fieldNames (e : Event) : List String :=
  (e.message.map fun _ => messageName).toList ++ e.fields.map Field.name

/-- The line of an event. -/
def Event.render (e : Event) : String :=
  let spans := match e.spans with
    | [] => ""
    | ss => String.intercalate ":" (ss.map Span.render) ++ ": "
  let texts := e.message.toList ++ e.fields.map Field.render
  e.level.label ++ " " ++ spans ++ e.part ++ ": " ++ String.intercalate " " texts

end ExecTruth.Log
