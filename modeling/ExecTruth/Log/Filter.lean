import ExecTruth.Log.Rule

/-! # Log filters — which events are shown

    A filter is a list of rules separated by commas.  Of the plain rules that are about
    an event the one decides that describes it most closely.  A rule about spans shows
    more of what happens inside them, and a span is named in the lines of its events
    if the filter has reason to follow it.  A rule that cannot be read is refused with a
    complaint, and a filter without rules shows errors. -/

namespace ExecTruth.Log

/-- A filter as its rules. -/
structure Filter where
  /-- The rules that decide on events by themselves. -/
  forEvents : List Rule
  /-- The rules about what happens in spans. -/
  forSpans : List Rule
  /-- The number of the least important level that any rule was ever about. -/
  reach : Nat
  /-- What could not be read as a rule. -/
  refused : List (String × RuleFault)
  deriving Repr

namespace Filter

/-- The rules with one more, in the place of one about the same. -/
def place (rules : List Rule) (r : Rule) : List Rule :=
  rules.filter (!·.sameSubject r) ++ [r]

/-- The rule of a filter without rules. -/
def errorsOnly : Rule := ⟨none, none, none, 1⟩

/-- The filter of rules, with what was refused. -/
def ofRules (rules : List Rule) (refused : List (String × RuleFault)) : Filter :=
  let rules := if rules.isEmpty then [errorsOnly] else rules
  let plain := rules.filter (!·.isScoped) ++ rules.filter fun r => r.isScoped && r.isPlain
  ⟨plain.foldl place [], (rules.filter (·.isScoped)).foldl place [],
    rules.foldl (fun reach r => max reach r.upTo) 0, refused⟩

/-- Reads pieces as rules behind those read and refused, the latest first, up to one
    that is torn. -/
def readAll (rules : List Rule) (refused : List (String × RuleFault)) : List String → Filter
  | [] => ofRules rules.reverse refused.reverse
  | s :: rest =>
      match Rule.ofString s with
      | .ok r => readAll (r :: rules) refused rest
      | .error .torn => ofRules rules.reverse ((s, .torn) :: refused).reverse
      | .error fault => readAll rules ((s, fault) :: refused) rest

/-- Reads a filter. -/
def ofString (s : String) : Filter :=
  readAll [] [] (((Text.cutAt ',' s.toList).filter (!·.isEmpty)).map String.ofList)

/-- Whether the filter could not be read to its end. -/
def isTorn (f : Filter) : Bool := f.refused.any (·.2 == .torn)

/-- What is said of the rules that were refused. -/
def complaints (f : Filter) : List String :=
  (f.refused.filter (·.2 != .torn)).map fun (s, fault) =>
    "ignoring `" ++ s ++ "`: " ++ fault.message

/-- The rule that describes most closely what all of some rules are about. -/
def closest (rules : List Rule) : Option Rule :=
  rules.foldl
    (fun best r =>
      match best with
      | none => some r
      | some b => if r.isCloser b then some r else some b)
    none

/-- The number of the least important level that some rules show. -/
def shownBy (rules : List Rule) : Nat := ((closest rules).map (·.upTo)).getD 0

/-- The number of the least important level of spans that there can be. -/
def spanReach (f : Filter) : Nat :=
  if f.forSpans.any (·.test?.any (·.wanted?.isSome)) then Rule.everything else f.reach

/-- Whether a rule is about spans like this one. -/
def watches (f : Filter) (s : Span) : Bool := f.forSpans.any (·.coversSpan s)

/-- The number of the least important level shown inside a span. -/
def shownIn (f : Filter) (s : Span) : Nat :=
  (f.forSpans.filter (·.holdsIn s)).foldl (fun n r => max n r.upTo) 0

/-- Whether a span is followed, inside spans that show up to the levels `scope`. -/
def follows (f : Filter) (scope : List Nat) (s : Span) : Bool :=
  let rank := s.level.rank
  rank ≤ f.spanReach
    && (f.watches s || rank ≤ shownBy (f.forEvents.filter (·.coversPart s.part))
      || scope.any (rank ≤ ·))

/-- The spans that are followed, of some that lie in one another, outermost first, and
    the levels that are shown inside them. -/
def follow (f : Filter) (scope : List Nat) : List Span → List Span × List Nat
  | [] => ([], scope)
  | s :: rest =>
      if f.follows scope s then
        let (spans, scope) :=
          f.follow (if f.watches s then scope ++ [f.shownIn s] else scope) rest
        (s :: spans, scope)
      else f.follow scope rest

/-- Whether an event is shown. -/
def shows (f : Filter) (e : Event) : Bool :=
  let rank := e.level.rank
  rank ≤ shownBy (f.forEvents.filter (·.coversEvent e)) || (f.follow [] e.spans).2.any (rank ≤ ·)

/-- The line of an event with the spans that are followed. -/
def line (f : Filter) (e : Event) : String :=
  { e with spans := (f.follow [] e.spans).1 }.render

end Filter

/-- The lines of the events that a filter shows. -/
def render (f : Filter) (events : List Event) : List String := (events.filter f.shows).map f.line

end ExecTruth.Log
