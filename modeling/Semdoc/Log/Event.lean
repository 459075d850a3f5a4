import Semdoc.Failure

/-! # Log events

Problems that leave a usable result are reported as messages.  A computation that may report is a
value of `Logged`: its result together with the events it emits, in order.  Besides messages there
are events that change the stack of default locations, which stand in for the location of messages
that have none.
-/

namespace Semdoc

/-- How serious a message is, from least to most. -/
inductive Severity where
  | debug
  | note
  | warning
  | error
  | fatal
  deriving DecidableEq, Inhabited

namespace Severity

/-- All severities, the least first. -/
def all : List Severity := [debug, note, warning, error, fatal]

/-- The place of a severity among all. -/
def rank : Severity → Nat
  | debug => 0
  | note => 1
  | warning => 2
  | error => 3
  | fatal => 4

/-- The written name of a severity. -/
def name : Severity → String
  | debug => "debug"
  | note => "note"
  | warning => "warning"
  | error => "error"
  | fatal => "fatal error"

/-- Whether a severity is at least another. -/
def atLeast (s t : Severity) : Bool := t.rank ≤ s.rank

/-- Whether a severity makes a result unusable or wrong. -/
def isError (s : Severity) : Bool := s.atLeast error

/-- The more serious of two severities. -/
def worse (s t : Severity) : Severity := if s.atLeast t then s else t

end Severity

/-- How much is shown along with a message. -/
inductive MessageMode where
  | standard
  /-- Leave out the excerpt of the source. -/
  | noContext
  /-- Leave out the stack of locations. -/
  | noTrace
  deriving DecidableEq, Inhabited

/-- A report. -/
structure Message where
  severity : Severity
  text : String
  location : Location := .unknown
  mode : MessageMode := .standard
  deriving DecidableEq, Inhabited

/-- The message on one line, with its location if that is known. -/
def Message.line (m : Message) : String :=
  let body := s!"{m.severity.name}: {m.text}"
  if m.location.isValid then s!"{m.location.text}: {body}" else body

/-- What a computation may tell a log. -/
inductive LogEvent where
  | message (m : Message)
  /-- Makes a location the innermost default. -/
  | pushLocation (l : Location)
  /-- Drops the innermost default location. -/
  | popLocation
  /-- Replaces the innermost default location. -/
  | setLocation (l : Location)
  deriving DecidableEq, Inhabited

namespace LogEvent

/-- The message of an event. -/
def message? : LogEvent → Option Message
  | message m => some m
  | _ => none

/-- Whether an event is a message of severity error or worse. -/
def isError : LogEvent → Bool
  | message m => m.severity.isError
  | _ => false

end LogEvent

/-- The messages among some events. -/
def messagesOf (events : List LogEvent) : List Message :=
  events.filterMap LogEvent.message?

/-- Whether some event is a message of severity error or worse. -/
def hasError (events : List LogEvent) : Bool :=
  events.any LogEvent.isError

/-- A result with the events emitted on the way. -/
structure Logged (α : Type u) where
  value : α
  events : List LogEvent
  deriving Inhabited

namespace Logged

instance : Monad Logged where
  pure a := ⟨a, []⟩
  bind x f :=
    let y := f x.value
    ⟨y.value, x.events ++ y.events⟩

/-- Emits events. -/
def emit (events : List LogEvent) : Logged Unit :=
  ⟨(), events⟩

/-- Reports a message. -/
def report (severity : Severity) (text : String) (location : Location := .unknown) : Logged Unit :=
  emit [.message { severity, text, location }]

/-- Reports an error. -/
def error (text : String) (location : Location := .unknown) : Logged Unit :=
  report .error text location

/-- Reports a failure as an error at its own location, the context behind the message. -/
def failure (f : Failure) : Logged Unit :=
  let text := match f.context with
    | some context => s!"{f.message} ({context})"
    | none => f.message
  error text f.place

/-- Gives a computation a default location. -/
def within (l : Location) (x : Logged α) : Logged α :=
  ⟨x.value, .pushLocation l :: x.events ++ [.popLocation]⟩

/-- Whether an error has been reported. -/
def failed (x : Logged α) : Bool := hasError x.events

@[simp] theorem value_pure (a : α) : (pure a : Logged α).value = a := rfl

@[simp] theorem events_pure (a : α) : (pure a : Logged α).events = [] := rfl

@[simp] theorem value_bind (x : Logged α) (f : α → Logged β) :
    (x >>= f).value = (f x.value).value := rfl

@[simp] theorem events_bind (x : Logged α) (f : α → Logged β) :
    (x >>= f).events = x.events ++ (f x.value).events := rfl

end Logged

end Semdoc
