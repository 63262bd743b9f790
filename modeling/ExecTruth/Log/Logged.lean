import ExecTruth.Log.Event

/-! # Logged values — values with the events reported on the way to them

    A logged computation adds its events behind those reported before. -/

namespace ExecTruth

/-- A computation of an `α` that reports events. -/
abbrev Logged (α : Type) : Type := StateM (List Log.Event) α

/-- Reports an event. -/
def Log.report (e : Log.Event) : Logged Unit := modify fun events => events ++ [e]

/-- What comes behind a logged computation goes on from its value and its events. -/
theorem Logged.bind_of_eq {α β : Type} {l : Logged α} {next : α → Logged β} {a : α}
    {events events' : List Log.Event} (h : l events = (a, events')) :
    (l >>= next) events = next a events' := by
  show (let r := l events; next r.1 r.2) = _
  rw [h]

end ExecTruth
