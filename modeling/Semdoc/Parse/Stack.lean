import Semdoc.Parse.Deduction

/-! # The stack of elements

Whoever reads an input format reports commands, data and tokens to a stack of elements.  Commands
open elements; everything else goes to the handler of the innermost one.  An element that its
handler refuses, or that lies in one that is refused, stays on the stack until it ends, but its
handler hears nothing more.
-/

namespace Semdoc

/-- Why the stack refuses something. -/
inductive StackFault where
  /-- A command may not appear here; gives those that may. -/
  | unexpectedCommand (name : String) (expected : List String)
  /-- Elements are nested too deep. -/
  | tooDeep (most : Nat)
  /-- There is no element to end. -/
  | nothingToEnd
  /-- There is no element to take something. -/
  | noReceiver (what : String)
  deriving DecidableEq, Inhabited

namespace StackFault

/-- The wording of a cause. -/
def message : StackFault → String
  | unexpectedCommand name [] => s!"Unexpected command \"{name}\", expected no command here"
  | unexpectedCommand name expected =>
    let all := ", ".intercalate (expected.map fun e => s!"\"{e}\"")
    s!"Unexpected command \"{name}\", expected one of {all}"
  | tooDeep most => s!"Maximum nesting depth of {most} exceeded"
  | nothingToEnd => "No command here to end"
  | noReceiver what => s!"No command to receive {what}"

/-- The failure that reports a cause. -/
def failure (f : StackFault) : Failure := { kind := .invalidCommand, message := f.message }

end StackFault

/-- An element that is open. -/
structure Element (σ : Type) where
  info : ElementInfo
  handler : Handler σ
  /-- Whether the handler has accepted the element. -/
  valid : Bool

/-- The elements that are open. -/
structure ElementStack (σ : Type) where
  table : CommandTable σ
  /-- The innermost element first. -/
  elements : List (Element σ) := []
  /-- How many elements may be open. -/
  most : Nat

namespace ElementStack

/-- A stack without elements. -/
def empty (table : CommandTable σ) (l : Limits) : ElementStack σ :=
  { table, most := l.stackDepth.toNat }

/-- The number of open elements. -/
def depth (s : ElementStack σ) : Nat := s.elements.length

/-- The command of the innermost element. -/
def current (s : ElementStack σ) : CommandId :=
  ((s.elements.head?).map (·.info.command)).getD .outside

/-- The name of the command of the innermost element. -/
def currentName? (s : ElementStack σ) : Option String :=
  (s.elements.head?).map (·.info.name)

/-- Whether the handler of the innermost element has accepted it. -/
def isValid (s : ElementStack σ) : Bool :=
  ((s.elements.head?).map (·.valid)).getD false

/-- The names of the commands that may come. -/
def expected (s : ElementStack σ) : List String :=
  s.table.expected s.current

/-- The command and the handler for a name: those of the first command of that name that may come,
or the current command and its handler for everything else. -/
def target? (s : ElementStack σ) (name : String) : Option (CommandId × HandlerMaker σ) :=
  match (s.table.named name).find? fun e => e.2.accepts s.current with
  | some (i, c) => some (i, c.element.getD Handler.plain)
  | none => (s.table.get? s.current).bind fun c => c.child.map (s.current, ·)

/-- A command begins an element.  Its arguments are checked, and completed even if something is
wrong with them; what has become of them is the second part of the result. -/
def start (s : ElementStack σ) (name : String) (args : Entries Value) (l : Location) :
    Handling σ (Except Failure Unit × Entries Value × ElementStack σ) := do
  let refuse (f : StackFault) := pure (.error (f.failure.withLocation l), args, s)
  match s.target? name with
  | none => refuse (.unexpectedCommand name s.expected)
  | some (command, make) =>
    if s.most ≤ s.depth then refuse (.tooDeep s.most)
    else
      let signature := ((s.table.get? command).map (·.signature)).getD .unknown
      let args := (← StateT.lift (signature.checkMap args true)).value
      let info := { name, command, location := l : ElementInfo }
      let handler := make info
      let outer := ((s.elements.head?).map (·.valid)).getD true
      let (valid, args) ← if outer then handler.start args else pure (false, args)
      return (.ok (), args, { s with elements := { info, handler, valid } :: s.elements })

/-- The innermost element ends. -/
def finish (s : ElementStack σ) : Handling σ (Except Failure Unit × ElementStack σ) := do
  match s.elements with
  | [] => return (.error StackFault.nothingToEnd.failure, s)
  | e :: rest =>
    if e.valid then e.handler.finish
    return (.ok (), { s with elements := rest })

/-- Hands something to the handler of the innermost element, if it has accepted it. -/
def deliver (s : ElementStack σ) (what : String) (otherwise : α)
    (f : Handler σ → Handling σ α) : Handling σ (Except Failure α) :=
  match s.elements with
  | [] => pure (.error (StackFault.noReceiver what).failure)
  | e :: _ => if e.valid then .ok <$> f e.handler else pure (.ok otherwise)

/-- Character data for the field with a number. -/
def data (s : ElementStack σ) (v : Value) (field : Nat) : Handling σ (Except Failure Bool) :=
  s.deliver "data" false fun h => h.data v field

/-- A field begins. -/
def fieldStart (s : ElementStack σ) (isDefault : Bool) (field : Nat) :
    Handling σ (Except Failure Bool) :=
  s.deliver "a field" false fun h => h.fieldStart isDefault field

/-- A field ends. -/
def fieldFinish (s : ElementStack σ) : Handling σ (Except Failure Unit) :=
  s.deliver "a field end" () (·.fieldFinish)

/-- An annotation begins. -/
def annotationStart (s : ElementStack σ) (className : String) (args : Entries Value) :
    Handling σ (Except Failure Bool) :=
  s.deliver "an annotation" false fun h => h.annotationStart className args

/-- An annotation ends. -/
def annotationFinish (s : ElementStack σ) (className name : String) :
    Handling σ (Except Failure Bool) :=
  s.deliver "an annotation end" false fun h => h.annotationFinish className name

/-- A token. -/
def token (s : ElementStack σ) (t : Value) : Handling σ (Except Failure Bool) :=
  s.deliver "a token" false fun h => h.token t

/-- Opens an element of the one command that fits the scope.  If there is none or there are several
this is reported. -/
def deduce (s : ElementStack σ) : Handling σ (Bool × ElementStack σ) := do
  let session ← get
  match s.table.deduce (session.scope.signature session.world.store) with
  | [command] =>
    let name := ((s.table.get? command).map (·.name)).getD ""
    let info := { name, command, location := .unknown : ElementInfo }
    let element := { info, handler := .plain info, valid := true }
    return (true, { s with elements := element :: s.elements })
  | candidates =>
    Handling.error "Cannot deduce parser state" .unknown
    candidates.forM fun i => do
      if let some c := s.table.get? i then
        StateT.lift (Logged.report .note s!"Possible state: \"{c.name}\"")
    return (false, s)

end ElementStack

end Semdoc
