import Semdoc.Document.Query
import Semdoc.Exchange.Encode
import Semdoc.Parse.Stack
import Semdoc.Typesystem.Query

/-! # Summaries

What there is to know about a node at a glance, and about the state of reading, in a form for
exchange.  A summary is put together from questions that can be asked one by one.
-/

namespace Semdoc

namespace Store

/-- The nodes in the order of their numbers. -/
def byNumber (s : Store) : List NodeHandle :=
  s.handles.mergeSort fun a b => (s.uid? a).getD 0 ≤ (s.uid? b).getD 0

/-- What is particular to the kind of a node. -/
def particulars (s : Store) (h : NodeHandle) (n : Node) : List (String × Form) :=
  let descriptor (tokens : TokenPair) : List (String × Form) :=
    [("attributes", form (s.attributesOf? h)), ("fields", form (s.ownFields h)),
     ("tokens", form tokens)]
  let entity (e : EntityContent) : String × Form :=
    ("entity", form (e.descriptor, e.attributes, n.rosters.map (·.2.items)))
  match n.content with
  | .structuredClass c =>
    ("class", form (c.cardinality.text, c.superclass, c.transparent, c.root, c.shortToken,
      (s.ownFields h).length)) :: descriptor c.tokens
  | .annotationClass tokens => descriptor tokens
  | .fieldDescriptor f =>
    [("field", form (f.type, f.optional, f.whitespace, f.isPrimitive, f.primitiveType,
      s.declaredChildren h, f.tokens.start, f.tokens.stop))]
  | .type shape =>
    [("type_kind", form (shape.tag, shape.isPrimitive, s.enumerationConstants h))]
  | .structuredEntity e => [entity e]
  | .annotationEntity e start stop =>
    [entity e, ( "annotation", form (start, stop, e.descriptor))]
  | .documentPrimitive v => [("content", form v)]
  | .anchor mark => [("anchor", form mark)]
  | .document => [("root", form (s.documentRoot? h))]
  | _ => []

/-- All about a node, or nothing for a handle that reaches none. -/
def summary (s : Store) (h : NodeHandle) : Form := fun number =>
  match s.get? h with
  | none => .null
  | some n =>
    let common := record "uid name type parent slot location validated edges slots"
      (n.uid, n.name, n.tag, n.parent, n.home.map (·.slot), n.location, n.validated,
        n.edges.map fun e => (e.target, e.owned), n.rosters.map fun e => (e.1, form e.2.items))
    let more := (s.particulars h n).map fun e => (e.1, e.2 number)
    match common number with
    | .object entries => .ofEntries (entries ++ more)
    | j => j

/-- Where a node stands. -/
def identity (s : Store) (h : NodeHandle) : Form :=
  record "name type uid parent location object path"
    (s.name h, s.tag h, s.uid? h, s.parent? h, s.location h, s.object h, s.path h)

/-- A roster, with what it says about a node and a name. -/
def rosterSummary (s : Store) (h : NodeHandle) (slot : Slot) (child : NodeHandle) (name : String) :
    Form :=
  form <| (s.roster? h slot).map fun r =>
    record "len empty first last second contains position resolve names no_names has_name iter"
      (r.items.length, r.items.isEmpty, r.items.head?, r.items.getLast?, r.items[1]?,
        r.contains child, r.position? child, r.resolve? name, r.index.names.length,
        r.index.entries.isEmpty, r.index.hasName name, form r.items)

/-- What a class inherits and has. -/
def classSummary (s : Store) (h : NodeHandle) : Form :=
  record "superclass subclasses chain cycle transparent attributes fields effective defaults"
    (s.superclass? h, s.subclasses h, s.classLine h, s.hasInheritanceCycle h, s.isTransparent h,
      s.attributesOf? h, s.ownFields h, s.effectiveFields h, s.defaultFields h)

/-- The attributes of a struct type, and the place of one of them. -/
def structSummary (s : Store) (h : NodeHandle) (name : String) : Form :=
  record "parent cycle attributes index"
    (s.structParent? h, s.structHasCycle h, s.structAttributes h, s.structAttributeIndex? h name)

/-- What a node holds as part of a document. -/
def contentSummary (s : Store) (h : NodeHandle) : Form :=
  record "descriptor attributes anchor content"
    (s.descriptorOf h, (s.entity? h).map (·.attributes), s.anchorAnnotation? h, s.primitive? h)

end Store

/-- The nodes under construction. -/
def Scope.summary (sc : Scope σ) (s : Store) : Form :=
  record "root leaf depth empty nodes signature deferred post_head"
    (sc.root?, sc.leaf?, sc.depth, sc.depth == 0, sc.nodes.reverse, sc.signature s,
      sc.pending.length, sc.flag .postHead)

instance : Encode CommandId := ⟨fun c => form c.index⟩

/-- The commands of a table and what may follow them. -/
def CommandTable.summary (t : CommandTable σ) : Form :=
  let one : CommandId × Command σ → Form := fun (i, c) =>
    form (i, c.name, c.parents, c.signature.parameters.length, c.creates, c.element.isSome,
      c.child.isSome, i.isPseudo, t.expected i, (t.named c.name).map (·.1))
  record "len empty states top" (t.size, t.size == 0, t.real.map one, t.expected .outside)

/-- The innermost of the open elements. -/
def ElementStack.summary (s : ElementStack σ) : Form :=
  record "depth empty state command valid expected states"
    (s.depth, s.depth == 0, s.current, s.currentName?, s.isValid, s.expected, s.table.size)

instance : Encode (ElementStack σ) := ⟨ElementStack.summary⟩

end Semdoc
