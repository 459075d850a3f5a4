import Semdoc.Log.Ledger

/-! # Other receivers of log events

`FirstError` turns the first error into a failure, for operations that answer with a result or a
failure.  `Telemetry` writes flat records by level.  `LogFork` holds events back until it is decided
whether they count: committing replays them on the receiver below, purging forgets them.
-/

namespace Semdoc

/-- Keeps the first error as a failure of a fixed kind. -/
structure FirstError where
  kind : FailureKind
  failure : Option Failure := none
  deriving DecidableEq, Inhabited

namespace FirstError

/-- Takes in one event. -/
def record (f : FirstError) : LogEvent → FirstError
  | .message m =>
    if m.severity.isError && f.failure.isNone then
      { f with
        failure := some (({ kind := f.kind, message := m.text } : Failure).withLocation m.location) }
    else f
  | _ => f

/-- Takes in events in order. -/
def recordAll (f : FirstError) (events : List LogEvent) : FirstError :=
  events.foldl record f

/-- The result, unless an error came. -/
def result (f : FirstError) (a : α) : Except Failure α :=
  match f.failure with
  | some e => .error e
  | none => .ok a

end FirstError

/-- The result of a computation that reported no error; otherwise its first error as a failure. -/
def Logged.toExcept (kind : FailureKind) (x : Logged α) : Except Failure α :=
  (({ kind } : FirstError).recordAll x.events).result x.value

/-- The levels of telemetry records. -/
inductive TelemetryLevel where
  | debug
  | info
  | warn
  | error
  deriving DecidableEq, Inhabited

/-- The written name of a level. -/
def TelemetryLevel.name : TelemetryLevel → String
  | debug => "DEBUG"
  | info => "INFO"
  | warn => "WARN"
  | error => "ERROR"

/-- A flat record of a message. -/
structure TelemetryRecord where
  level : TelemetryLevel
  location : Location
  message : String
  fatal : Bool
  deriving DecidableEq, Inhabited

/-- Messages as flat records, the latest first. -/
structure Telemetry where
  locations : LocationStack := []
  records : List TelemetryRecord := []
  deriving DecidableEq, Inhabited

namespace Telemetry

/-- The level of a severity. -/
def level : Severity → TelemetryLevel
  | .debug => .debug
  | .note => .info
  | .warning => .warn
  | .error | .fatal => .error

/-- Takes in one event. -/
def record (t : Telemetry) (e : LogEvent) : Telemetry :=
  match e with
  | .message m =>
    let m := t.locations.fill m
    { t with
      records :=
        { level := level m.severity, location := m.location, message := m.text
          fatal := m.severity == .fatal } :: t.records }
  | _ => { t with locations := t.locations.after e }

end Telemetry

/-- Events held back, the latest first. -/
structure LogFork where
  held : List LogEvent := []
  deriving DecidableEq, Inhabited

namespace LogFork

/-- The events in the order in which they came. -/
def events (f : LogFork) : List LogEvent :=
  f.held.reverse

/-- Takes in one event. -/
def record (f : LogFork) (e : LogEvent) : LogFork :=
  { held := e :: f.held }

/-- The number of messages held back. -/
def messageCount (f : LogFork) : Nat :=
  (messagesOf f.held).length

/-- The most serious severity held back. -/
def worst? (f : LogFork) : Option Severity :=
  (messagesOf f.held).foldl (fun w m => some ((w.map m.severity.worse).getD m.severity)) none

/-- Whether a message of severity error or worse is held back. -/
def hasError (f : LogFork) : Bool :=
  Semdoc.hasError f.held

/-- Forgets all events. -/
def purge (_ : LogFork) : LogFork := {}

end LogFork

/-- A receiver of log events. -/
inductive LogSink where
  | ledger (l : Ledger)
  | firstError (f : FirstError)
  | telemetry (t : Telemetry)
  /-- Drops everything. -/
  | silent
  | fork (f : LogFork)
  deriving DecidableEq, Inhabited

namespace LogSink

/-- Takes in one event. -/
def record (s : LogSink) (e : LogEvent) : LogSink :=
  match s with
  | ledger l => ledger (l.record e)
  | firstError f => firstError (f.record e)
  | telemetry t => telemetry (t.record e)
  | silent => silent
  | fork f => fork (f.record e)

/-- Takes in events in order. -/
def recordAll (s : LogSink) (events : List LogEvent) : LogSink :=
  events.foldl record s

/-- Replays what a fork holds back. -/
def commit (s : LogSink) (f : LogFork) : LogSink :=
  s.recordAll f.events

end LogSink

end Semdoc
