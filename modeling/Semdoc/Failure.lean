import Semdoc.Source.Location

/-! # Failures

A failure says why an operation has no result.  It names its kind, a message, the location it
refers to if one is known, and what was being done at the time.
-/

namespace Semdoc

/-- The kinds of failures. -/
inductive FailureKind where
  /-- A value held another kind than requested. -/
  | typeMismatch
  /-- A value could not be converted. -/
  | conversion
  /-- A command is not possible at its place. -/
  | invalidCommand
  /-- The node graph was asked to do something impossible. -/
  | structural
  /-- A name could not be resolved. -/
  | resolution
  /-- The input breaks the rules of its format. -/
  | malformed
  /-- An input source could not be read. -/
  | input
  deriving DecidableEq, Inhabited

/-- All kinds. -/
def FailureKind.all : List FailureKind :=
  [typeMismatch, conversion, invalidCommand, structural, resolution, malformed, input]

/-- The written name of a kind. -/
def FailureKind.name : FailureKind → String
  | typeMismatch => "TypeMismatchError"
  | conversion => "ConversionError"
  | invalidCommand => "InvalidCommandError"
  | structural => "StructureError"
  | resolution => "ResolutionError"
  | malformed => "SyntaxError"
  | input => "IOError"

/-- Why an operation has no result. -/
structure Failure where
  kind : FailureKind
  message : String
  location : Option Location := none
  context : Option String := none
  deriving DecidableEq, Inhabited

namespace Failure

/-- Adds the location the failure refers to; one that is not valid changes nothing. -/
def withLocation (f : Failure) (l : Location) : Failure :=
  if l.isValid then { f with location := some l } else f

/-- Sets the context. -/
def withContext (f : Failure) (context : String) : Failure :=
  { f with context := some context }

/-- Puts a further context before the one already there; an empty one changes nothing. -/
def addContext (f : Failure) (context : String) : Failure :=
  if context == "" then f
  else
    match f.context with
    | some existing => f.withContext s!"{context}; {existing}"
    | none => f.withContext context

/-- The location of the failure, unknown if it has none. -/
def place (f : Failure) : Location :=
  f.location.getD .unknown

/-- Kind and message. -/
def text (f : Failure) : String :=
  s!"{f.kind.name}: {f.message}"

/-- A value was asked for as another kind than it is. -/
def mismatch (actual requested : String) : Failure :=
  { kind := .typeMismatch, message := s!"Variant: Requested \"{requested}\" but is \"{actual}\"" }

/-- A structural failure. -/
def structural (message : String) : Failure :=
  { kind := .structural, message }

/-- An input source that could not be read, with what was being done. -/
def ofInput (message context : String) : Failure :=
  { kind := .input, message, context := some context }

end Failure

end Semdoc
