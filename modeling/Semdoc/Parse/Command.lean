import Semdoc.Parse.Handler

/-! # Commands

A command of an input format has a name, the commands it may appear under, the arguments it takes,
the types of the nodes it creates, and who handles it.  There may be several commands of one name at
different places.  Two numbers are not those of real commands: one stands for the empty stack, and
as a parent the other admits a command anywhere.
-/

namespace Semdoc

namespace CommandId

/-- Stands for the empty stack. -/
def outside : CommandId := ⟨0⟩

/-- As a parent, admits a command anywhere. -/
def anywhere : CommandId := ⟨1⟩

/-- Whether a number is not that of a real command. -/
def isPseudo (c : CommandId) : Bool := c == outside || c == anywhere

end CommandId

/-- Makes the handler of an element. -/
abbrev HandlerMaker (σ : Type) := ElementInfo → Handler σ

/-- A command of an input format. -/
structure Command (σ : Type) where
  name : String
  /-- What the command may appear under. -/
  parents : List CommandId := []
  signature : Signature := .unknown
  /-- The types of the nodes that its handler creates. -/
  creates : List TypeTag := []
  /-- Who handles the command. -/
  element : Option (HandlerMaker σ) := none
  /-- Who handles what appears under the command and is no command there. -/
  child : Option (HandlerMaker σ) := none

namespace Command

/-- Allows the command under another one. -/
def addParent (c : Command σ) (parent : CommandId) : Command σ :=
  if c.parents.contains parent then c else { c with parents := c.parents ++ [parent] }

/-- Whether the command may appear directly under another one. -/
def accepts (c : Command σ) (current : CommandId) : Bool :=
  c.parents.any fun p => p == current || p == .anywhere

/-- Whether the handler of the command may have created a node of a type. -/
def mayCreate (c : Command σ) (type : TypeTag) : Bool :=
  c.creates.any type.isA

/-- Whether the command creates nodes at all. -/
def isGenerative (c : Command σ) : Bool := !c.creates.isEmpty

end Command

/-- The commands of an input format. -/
structure CommandTable (σ : Type) where
  /-- All commands by number, those that are not real ones first. -/
  commands : List (Command σ) := [{ name := "$none" }, { name := "$all" }]

namespace CommandTable

/-- Adds a command and gives its number. -/
def register (t : CommandTable σ) (c : Command σ) : CommandId × CommandTable σ :=
  (⟨t.commands.length⟩, { commands := t.commands ++ [c] })

/-- The command with a number. -/
def get? (t : CommandTable σ) (c : CommandId) : Option (Command σ) :=
  t.commands[c.index]?

/-- Allows a command under another one. -/
def addParent (t : CommandTable σ) (c parent : CommandId) : CommandTable σ :=
  { commands := t.commands.modify c.index (·.addParent parent) }

/-- The real commands with their numbers. -/
def real (t : CommandTable σ) : List (CommandId × Command σ) :=
  (t.commands.zipIdx.map fun (c, i) => (⟨i⟩, c)).drop 2

/-- The number of real commands. -/
def size (t : CommandTable σ) : Nat := t.real.length

/-- The commands with a name. -/
def named (t : CommandTable σ) (name : String) : List (CommandId × Command σ) :=
  t.real.filter fun e => e.2.name == name

/-- Puts texts in order and each there once. -/
def sortedNames (names : List String) : List String :=
  (Entries.ofPairs (names.map (·, ()))).map (·.1)

/-- The names of the commands that may appear under another one, in order. -/
def expected (t : CommandTable σ) (current : CommandId) : List String :=
  sortedNames ((t.real.filter fun e => e.2.accepts current).map (·.2.name))

end CommandTable

end Semdoc
