import Semdoc.Document.Check
import Semdoc.Log.Sink
import Semdoc.Ontology.Check
import Semdoc.Project
import Semdoc.Typesystem.Check

/-! # Validation

Every node has checks of its own.  A node is valid if it passes them, refers to no dropped node, and
everything is valid that it owns or that it rests on.  A valid node is marked, and not looked at
again until it or something it owns changes.
-/

namespace Semdoc

/-- The results of one validation so far.  A node that is being looked at counts as valid. -/
abbrev Verdicts := List (NodeHandle × Bool)

namespace Store

/-- The checks of a node itself. -/
def checkContent (s : Store) (h : NodeHandle) : Content → Check
  | .project _ => s.checkProject h
  | .typesystem _ => s.checkTypesystem h
  | .type shape => s.checkType h shape
  | .attr a => s.checkAttribute h a
  | .ontology => s.checkOntology h
  | .structuredClass c => s.checkClass h c
  | .annotationClass tokens => s.checkDescriptor h tokens
  | .fieldDescriptor f => s.checkField h f
  | .document => s.checkDocument h
  | .structuredEntity e => s.checkStructuredEntity h e
  | .annotationEntity entity start stop => s.checkAnnotation h { entity, start, stop }
  | .documentPrimitive _ => pure true
  | .anchor annotation => s.checkAnchor h annotation

/-- What a node leads to exists. -/
def checkReferences (s : Store) (h : NodeHandle) (n : Node) : Check :=
  Check.all <| n.edges.map fun e =>
    Check.demand (s.contains e.target)
      s!"{n.tag.name} \"{s.pathText h}\" has a dangling reference" n.location

/-- The nodes that a node rests on without owning them: the typesystems of an ontology and the
superclass of a class, unless superclasses repeat. -/
def restsOn (s : Store) (h : NodeHandle) (n : Node) : List NodeHandle :=
  match n.content with
  | .ontology => n.listed .ontologyTypesystems
  | .structuredClass c => if s.hasInheritanceCycle h then [] else c.superclass.toList
  | _ => []

/-- The nodes that have to be valid for a node to be valid. -/
def neededBy (s : Store) (h : NodeHandle) (n : Node) : List NodeHandle :=
  (s.restsOn h n ++ n.owned).filter s.contains

/-- The checks of a node without those of others. -/
def checkNode (s : Store) (h : NodeHandle) (n : Node) : Check :=
  Check.all [s.checkReferences h n, s.checkContent h n.content]

end Store

/-- A validation under way: the store with its marks, and the results so far. -/
abbrev Validating := StateT (Store × Verdicts) Logged

namespace Validating

/-- Makes a check on the store as it is. -/
def check (c : Store → Check) : Validating Bool := do
  let (s, _) ← get
  StateT.lift (c s)

/-- Makes everything in a computation refer to some place unless it refers to another. -/
def within (l : Location) (x : Validating α) : Validating α := fun state =>
  Logged.within l (x state)

/-- Records the result for a node. -/
def record (h : NodeHandle) (ok : Bool) : Validating Unit :=
  modify fun (s, v) => (s, (h, ok) :: v)

/-- Marks a node as valid. -/
def mark (h : NodeHandle) : Validating Unit :=
  modify fun (s, v) => (s.modify h fun n => { n with validated := true }, v)

/-- The result for a node so far. -/
def verdict? (v : Verdicts) (h : NodeHandle) : Option Bool :=
  (v.find? fun e => e.1 == h).map (·.2)

/-- Validates a node.  The depth bounds how far things lead from one to another; nothing is entered
twice, so it need not exceed the number of nodes. -/
def node : Nat → NodeHandle → Validating Bool
  | 0, _ => pure true
  | depth + 1, h => do
    let (s, v) ← get
    match s.get? h with
    | none => check fun _ => Check.demand false "Dangling reference" .unknown
    | some n =>
      if n.validated then return true
      else
        match verdict? v h with
        | some ok => return ok
        | none =>
          record h true
          let ok ← within n.location do
            let sound ← check fun s => s.checkNode h n
            (s.neededBy h n).foldlM (fun ok below => do
              let fine ← node depth below
              return ok && fine) sound
          record h ok
          if ok then mark h
          return ok

end Validating

namespace Store

/-- Validates a node and everything it owns or rests on, with its reports and the store in which
what is valid is marked. -/
def validate (s : Store) (h : NodeHandle) : Logged (Bool × Store) := do
  let (ok, s, _) ← (Validating.node (s.bound + 1) h).run (s, [])
  return (ok, s)

/-- The first problem that validation finds, if there is one. -/
def validated (s : Store) (h : NodeHandle) : Except Failure Unit × Store :=
  let done := s.validate h
  (done.toExcept .structural |>.map fun _ => (), done.value.2)

/-- Whether a node is valid. -/
def isValid (s : Store) (h : NodeHandle) : Bool × Store :=
  (s.validate h).value

end Store

end Semdoc
