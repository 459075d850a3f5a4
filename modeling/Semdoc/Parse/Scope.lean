import Semdoc.Graph.Resolve
import Semdoc.Limits
import Semdoc.Typesystem.Build

/-! # Parser scopes

A scope is the stack of nodes that are under construction.  References are resolved as seen from
these nodes, the innermost first.  A reference that cannot be resolved yet waits, with the stack as
it was, until it is tried again; whoever asked for it is told by a callback.
-/

namespace Semdoc

/-- The nodes of a session, together with whatever those who build them keep. -/
structure World (σ : Type) where
  store : Store
  host : σ
  deriving Inhabited

/-- A computation that may change the world and report. -/
abbrev Act (σ : Type) := StateT (World σ) Logged

/-- Takes the node that a reference leads to, and the innermost node of the scope in which the
reference was met. -/
abbrev Callback (σ : Type) := NodeHandle → Option NodeHandle → Act σ Unit

namespace Act

/-- Makes an edit. -/
def edit (e : Edit α) : Act σ (Except EditFault α) :=
  modifyGet fun w =>
    let (r, store) := e.apply w.store
    (r, { w with store })

/-- Reports an error. -/
def error (text : String) (l : Location) : Act σ Unit :=
  StateT.lift (Logged.error text l)

end Act

/-- What may be remembered about a depth of the stack. -/
inductive ScopeFlag where
  /-- The first statement that imports nothing has been read. -/
  | postHead
  deriving DecidableEq, Inhabited

/-- A flag that was set at some depth. -/
structure FlagEntry where
  depth : Nat
  flag : ScopeFlag
  value : Bool
  deriving DecidableEq, Inhabited

/-- A reference that waits. -/
structure PendingReference (σ : Type) where
  /-- The stack when the reference was met, the innermost node first. -/
  nodes : List NodeHandle
  path : List String
  type : TypeTag
  /-- The innermost node when the reference was met. -/
  owner : Option NodeHandle
  callback : Callback σ
  location : Location

/-- The nodes under construction. -/
structure Scope (σ : Type) where
  /-- The stack, the innermost node first. -/
  nodes : List NodeHandle := []
  /-- The flags, the one set last first. -/
  flags : List FlagEntry := []
  /-- The depth below which nothing is taken off. -/
  floor : Nat := 0
  /-- The references that wait, the one that has waited longest first. -/
  pending : List (PendingReference σ) := []
  /-- How often the references that wait are tried again at most. -/
  passes : Nat

namespace Scope

/-- A scope without nodes. -/
def empty (l : Limits) : Scope σ := { passes := l.resolutionPasses.toNat }

/-- The number of nodes on the stack. -/
def depth (sc : Scope σ) : Nat := sc.nodes.length

/-- The innermost node. -/
def leaf? (sc : Scope σ) : Option NodeHandle := sc.nodes.head?

/-- The outermost node. -/
def root? (sc : Scope σ) : Option NodeHandle := sc.nodes.getLast?

/-- A scope for something that is read in between.  It begins with the same stack, below which it
takes nothing off, and has its own references that wait. -/
def fork (sc : Scope σ) : Scope σ :=
  { sc with floor := sc.depth, pending := [] }

/-- Takes over the references that wait in a fork, unless the fork has left nodes on its stack. -/
def join (sc fork : Scope σ) : Logged (Bool × Scope σ) := do
  if fork.depth ≠ fork.floor then
    Logged.error "Cannot join parser scope fork: an element was not closed"
    return (false, sc)
  else return (true, { sc with pending := sc.pending ++ fork.pending })

/-- Puts a node on the stack. -/
def push (sc : Scope σ) (h : NodeHandle) : Scope σ :=
  { sc with nodes := h :: sc.nodes }

/-- Takes the innermost node off, with the flags that were set while it was innermost. -/
def pop (sc : Scope σ) : Logged (Bool × Scope σ) := do
  let depth := sc.depth
  if depth ≤ sc.floor then
    Logged.error "No element here to end"
    return (false, sc)
  else
    return (true, { sc with
      nodes := sc.nodes.tail
      flags := sc.flags.dropWhile fun f => depth ≤ f.depth })

/-- The types of the nodes on the stack, the outermost first. -/
def signature (sc : Scope σ) (s : Store) : List TypeTag :=
  (sc.nodes.map s.tag).reverse

/-- The innermost node that is of one of some types, at most so many nodes below the innermost. -/
def select (sc : Scope σ) (s : Store) (types : List TypeTag) (below : Option Nat) :
    Option NodeHandle :=
  let nodes := match below with
    | some n => sc.nodes.take (n + 1)
    | none => sc.nodes
  nodes.find? fun h => (s.tag h).isOneOf types

/-- Changes the value of a flag that has been set at a depth. -/
def replaceFlag (depth : Nat) (flag : ScopeFlag) (value : Bool) :
    List FlagEntry → Option (List FlagEntry)
  | [] => none
  | f :: r =>
    if f.depth < depth then none
    else if f.flag = flag && f.depth = depth then some ({ f with value } :: r)
    else (replaceFlag depth flag value r).map (f :: ·)

/-- Sets a flag at the depth of the innermost node. -/
def setFlag (sc : Scope σ) (flag : ScopeFlag) (value : Bool) : Scope σ :=
  let depth := sc.depth
  { sc with
    flags := (replaceFlag depth flag value sc.flags).getD ({ depth, flag, value } :: sc.flags) }

/-- The value of a flag that was set last; false if it was not set. -/
def flag (sc : Scope σ) (flag : ScopeFlag) : Bool :=
  ((sc.flags.find? fun f => f.flag = flag).map (·.value)).getD false

/-- Where a path leads as seen from the first of some nodes from which it leads anywhere. -/
def lookup (s : Store) (path : List String) (type : TypeTag) (l : Location) :
    List NodeHandle → Logged (Option NodeHandle)
  | [] => pure none
  | h :: r => do
    match ← s.resolveUnique h path type l with
    | some found => return some found
    | none => lookup s path type l r

/-- Resolves a reference now, or lets it wait; tells whether it was resolved.  If it waits, the
callback is told of a placeholder meanwhile, if there is one. -/
def resolve (sc : Scope σ) (type : TypeTag) (path : List String)
    (placeholder : Option (Act σ NodeHandle)) (callback : Callback σ) (l : Location) :
    Act σ (Bool × Scope σ) := do
  let owner := sc.leaf?
  match ← StateT.lift (lookup (← get).store path type l sc.nodes) with
  | some h =>
    callback h owner
    return (true, sc)
  | none =>
    if let some make := placeholder then
      let h ← make
      callback h owner
    let reference :=
      { nodes := sc.nodes, path, type, owner, callback, location := l : PendingReference σ }
    return (false, { sc with pending := sc.pending ++ [reference] })

/-- Takes a type on to the type of arrays of it, which is made in a typesystem or else in that of the
type itself. -/
def intoArray (typesystem : Option NodeHandle) (l : Location) (callback : Callback σ) :
    Callback σ := fun inner owner => do
  let s := (← get).store
  match typesystem <|> s.parent? inner with
  | none => Act.error s!"No typesystem to create \"{s.name inner}[]\" in" l
  | some ts =>
    match ← Act.edit (Edit.createArrayType ts inner) with
    | .ok array => callback array owner
    | .error fault => StateT.lift (Logged.failure (fault.failure.withLocation l))

/-- Splits the brackets of array types off the reversed name of a type, and counts them. -/
def splitBrackets : List Char → Nat × List Char
  | ']' :: '[' :: r =>
    let (n, name) := splitBrackets r
    (n + 1, name)
  | name => (0, name)

/-- Resolves the name of a type.  Brackets behind it stand for arrays. -/
def resolveType (sc : Scope σ) (name : String) (callback : Callback σ) (l : Location) :
    Act σ (Bool × Scope σ) := do
  let (brackets, reversed) := splitBrackets name.toList.reverse
  let typesystem := sc.select (← get).store [.typesystem] none
  sc.resolve .typeNode (Text.splitPath (String.ofList reversed.reverse)) none
    (Nat.repeat (intoArray typesystem l) brackets callback) l

/-- Tries some references once more in order, and gives those that still wait. -/
def tryPending : List (PendingReference σ) → Act σ (List (PendingReference σ))
  | [] => pure []
  | p :: r => do
    match ← StateT.lift (lookup (← get).store p.path p.type p.location p.nodes) with
    | some h =>
      p.callback h p.owner
      tryPending r
    | none =>
      let rest ← tryPending r
      return p :: rest

/-- Tries references again until none of them is resolved any more, but not more often than the
number of rounds. -/
def retry : Nat → List (PendingReference σ) → Act σ (List (PendingReference σ))
  | 0, waiting => pure waiting
  | rounds + 1, waiting => do
    let rest ← tryPending waiting
    if rest.length = waiting.length then return rest else retry rounds rest

/-- Tries all references that wait until there is no progress.  What is left is reported and
forgotten; tells whether nothing was. -/
def resolvePending (sc : Scope σ) : Act σ (Bool × Scope σ) := do
  let left ← retry (min sc.passes sc.pending.length) sc.pending
  left.forM fun p =>
    Act.error s!"Could not resolve {p.type.name} \"{Text.joinPath p.path}\"" p.location
  return (left.isEmpty, { sc with pending := [] })

end Scope

end Semdoc
