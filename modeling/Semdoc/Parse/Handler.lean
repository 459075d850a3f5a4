import Semdoc.Parse.Scope
import Semdoc.Signature
import Semdoc.Token

/-! # Handlers

A handler takes what happens inside one element of the input.  It may use and change the session:
the nodes, the scope, and how the input is read.  What it keeps for itself it keeps in the host part
of the world.  A handler that does not expect something says so, and refuses it.
-/

namespace Semdoc

/-- What handlers work with. -/
structure Session (σ : Type) where
  world : World σ
  scope : Scope σ
  registry : TokenRegistry := {}
  project : NodeHandle
  /-- The number of the source that is read. -/
  source : UInt32 := 0

/-- A computation of a handler. -/
abbrev Handling (σ : Type) := StateT (Session σ) Logged

namespace Handling

/-- Reports an error. -/
def error (text : String) (l : Location) : Handling σ Unit :=
  StateT.lift (Logged.error text l)

/-- Does something with the world. -/
def act (x : Act σ α) : Handling σ α := fun session => do
  let (a, world) ← x session.world
  return (a, { session with world })

/-- Does something with the world and the scope. -/
def inScope (f : Scope σ → Act σ (α × Scope σ)) : Handling σ α := do
  let (a, scope) ← act (f (← get).scope)
  modify fun session => { session with scope }
  return a

/-- A place in the source that is read. -/
def location (start stop : Nat) : Handling σ Location := do
  return .ofOffsets (← get).source start stop

/-- The innermost node of a type. -/
def select (type : TypeTag) : Handling σ (Option NodeHandle) := do
  let session ← get
  return session.scope.select session.world.store [type] none

end Handling

/-- The number of a command in a table. -/
structure CommandId where
  index : Nat
  deriving DecidableEq, Inhabited

/-- What is known about an element. -/
structure ElementInfo where
  /-- The name of the command that began it. -/
  name : String
  command : CommandId
  location : Location
  deriving DecidableEq, Inhabited

/-- What is done about an element and what happens in it. -/
structure Handler (σ : Type) where
  /-- The element begins with arguments, which may be changed.  False refuses the element, and
  nothing else in it is reported. -/
  start : Entries Value → Handling σ (Bool × Entries Value) := fun args => pure (true, args)
  /-- The element ends. -/
  finish : Handling σ Unit := pure ()
  /-- Character data in the field with a number. -/
  data : Value → Nat → Handling σ Bool
  /-- A field begins; tells whether it is the one that needs no name, and its number. -/
  fieldStart : Bool → Nat → Handling σ Bool
  /-- A field ends. -/
  fieldFinish : Handling σ Unit := pure ()
  /-- An annotation of a class begins. -/
  annotationStart : String → Entries Value → Handling σ Bool
  /-- An annotation of a class ends; it may be told apart by its name. -/
  annotationFinish : String → String → Handling σ Bool
  /-- A registered token. -/
  token : Value → Handling σ Bool

/-- Reports something that an element does not expect, and refuses it. -/
def ElementInfo.refuse (e : ElementInfo) (text : String) : Handling σ Bool := do
  Handling.error text e.location
  return false

/-- The handler that lets elements begin and end and expects nothing in them. -/
def Handler.plain (e : ElementInfo) : Handler σ where
  data _ _ := e.refuse "Did not expect any data here"
  fieldStart isDefault _ :=
    if isDefault then pure true else e.refuse s!"\"{e.name}\" does not have any fields"
  annotationStart className _ := e.refuse s!"Cannot start annotation \"{className}\" here"
  annotationFinish className _ := e.refuse s!"Cannot end annotation \"{className}\" here"
  token t := e.refuse s!"Did not expect token {t.plainText} here"

end Semdoc
