import SnapLisp.ScriptError

/-!
# What a run tells the outside

A run reports `Event`s: strings that it prints, and the error that ended it. It never reads anything
back. A `Console` keeps all printed lines and the first failure.
-/

namespace SnapLisp

/-- Something a run tells the outside. -/
inductive Event where
  /-- Strings printed by one application, in order. -/
  | log (messages : List String)
  /-- The error that ended a run. -/
  | fail (error : ScriptError)
  deriving DecidableEq, Repr

/-- The strings that an event prints. -/
def Event.messages : Event → List String
  | .log messages => messages
  | .fail _ => []

/-- A record of what runs have told. -/
structure Console where
  /-- All printed strings, the earliest first. -/
  lines : List String
  /-- The first error that ended a run. -/
  fatal : Option ScriptError
  deriving DecidableEq, Repr

namespace Console

/-- The console that has been told nothing. -/
def empty : Console := ⟨[], none⟩

/-- Takes note of an event. A failure after the first one changes nothing. -/
def receive (c : Console) : Event → Console
  | .log messages => ⟨c.lines ++ messages, c.fatal⟩
  | .fail error => ⟨c.lines, c.fatal.or (some error)⟩

/-- Takes note of events in their order. -/
def receiveAll (c : Console) (events : List Event) : Console := events.foldl receive c

/-- Drops the lines and keeps the failure. -/
def clear (c : Console) : Console := ⟨[], c.fatal⟩

/-- All lines as one text. -/
def output (c : Console) : String := "\n".intercalate c.lines

theorem lines_receive (c : Console) (e : Event) : (c.receive e).lines = c.lines ++ e.messages := by
  cases e <;> simp [receive, Event.messages]

theorem lines_receiveAll (c : Console) (events : List Event) :
    (c.receiveAll events).lines = c.lines ++ events.flatMap Event.messages := by
  induction events generalizing c with
  | nil => simp [receiveAll]
  | cons e rest ih =>
    have := ih (c.receive e)
    simp_all [receiveAll, lines_receive]

end Console

end SnapLisp
