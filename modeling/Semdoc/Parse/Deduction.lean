import Semdoc.Parse.Command

/-! # Deducing the current command

When reading goes on inside a scope that is there already, the command that would be current has to
be found from the types of the nodes on its stack.  Commands that create nodes account for the types
one after the other, and commands that create none may stand in between.  Types at the outer end
that no command creates are there from the beginning.
-/

namespace Semdoc.CommandTable

/-- Whether a parent of a command is among some, where the empty stack may be one of them. -/
def parentActive (active : List CommandId) (outside : Bool) (c : Command σ) : Bool :=
  c.parents.any fun p =>
    if p == .anywhere then outside || !active.isEmpty
    else if p == .outside then outside
    else active.contains p

/-- Adds commands that create nothing below those that are there, as long as there are any. -/
def withSelectors (t : CommandTable σ) : Nat → List CommandId → List CommandId
  | 0, active => active
  | rounds + 1, active =>
    let more := t.real.filter fun (i, c) =>
      !active.contains i && !c.isGenerative && parentActive active false c
    if more.isEmpty then active else t.withSelectors rounds (active ++ more.map (·.1))

/-- The commands that may be current after a node of a type, without those that create nothing.  No
node before means that none is accounted for yet; then the stack of commands is empty, and for the
outermost node of all any command will do. -/
def creators (t : CommandTable σ) (outermost first : Bool) (before : List CommandId)
    (type : TypeTag) : List CommandId :=
  (t.real.filter fun (_, c) =>
    c.mayCreate type && (outermost || parentActive (if first then [] else before) first c)).map
    (·.1)

/-- Accounts for types one after the other. -/
def account (t : CommandTable σ) (before : List CommandId) : List TypeTag → List CommandId
  | [] => before
  | type :: rest =>
    t.account (t.withSelectors t.size (t.creators false false before type)) rest

/-- The commands that may be current in a scope with such nodes on the stack, in the order of their
registration. -/
def deduce (t : CommandTable σ) (signature : List TypeTag) : List CommandId :=
  let known := signature.dropWhile fun type => !t.real.any fun e => e.2.mayCreate type
  match known with
  | [] => []
  | type :: rest =>
    let outermost := known.length == signature.length
    let first := t.withSelectors t.size (t.creators outermost true [] type)
    let active := t.account first rest
    (t.real.map (·.1)).filter active.contains

end Semdoc.CommandTable
