import Semdoc.Proofs.Store.Forest

/-!
# Kinds of nodes

A node never becomes one of another kind: what changes in its content are details.  Nodes are owned
through slots for their kind only, and the endpoints of an annotation are anchors.
-/

namespace Semdoc

/-- The kind of the nodes that are owned through a slot.  Slots through which nothing is owned ask for
nothing. -/
def Slot.kind : Slot → TypeTag
  | .projectDocuments => .document
  | .projectOntologies => .ontology
  | .projectTypesystems => .typesystem
  | .typesystemTypes => .typeNode
  | .structAttributes => .attr
  | .ontologyClasses => .structuredClass
  | .ontologyAnnotationClasses => .annotationClass
  | .descriptorAttributes => .structType
  | .descriptorFields => .fieldDescriptor
  | .documentRoot => .structuredEntity
  | .documentAnnotations => .annotationEntity
  | .entityField _ => .structureNode
  | _ => .any

/-- The endpoints of an annotation. -/
def Content.endpoints : Content → List NodeHandle
  | .annotationEntity _ start stop => start.toList ++ stop.toList
  | _ => []

namespace TypeTag

/-- Some tags that no other tag specialises. -/
def leaves : List TypeTag :=
  [document, ontology, structType, attr, structuredClass, annotationClass, fieldDescriptor,
    structuredEntity, documentPrimitive, anchor, annotationEntity]

lemma isA_self (t : TypeTag) : t.isA t = true := by
  simp [isA]

lemma isA_iff_eq {t u : TypeTag} (hu : u ∈ leaves) : t.isA u = true ↔ t = u := by
  have hall : ∀ t ∈ all, ∀ u ∈ leaves, (t.isA u = true ↔ t = u) := by decide +kernel
  exact hall t (by cases t <;> decide) u hu

lemma isA_typeNode (shape : TypeShape) : shape.tag.isA .typeNode = true := by
  cases shape <;> dsimp only [TypeShape.tag] <;> decide +kernel

end TypeTag

namespace Store

/-- A node is of the kind that a slot asks for. -/
def Fits (s : Store) (slot : Slot) (c : NodeHandle) : Prop :=
  slot.isComposition = true → s.isA c slot.kind = true

/-- A content may take the place of another one.  What becomes an endpoint of an annotation is an
anchor. -/
structure Revisable (s : Store) (c d : Content) : Prop extends c.SameSlots d where
  tag : d.tag = c.tag
  endpoints : ∀ a ∈ d.endpoints, a ∈ c.endpoints ∨ s.isA a .anchor = true

lemma Revisable.of_eq {s : Store} {c d : Content} (h : c.SameSlots d) (ht : d.tag = c.tag)
    (he : d.endpoints = c.endpoints) : s.Revisable c d :=
  ⟨h, ht, fun _ ha => .inl (he ▸ ha)⟩

lemma isA_eq (s : Store) (h : NodeHandle) (type : TypeTag) :
    s.isA h type = ((s.content? h).map fun c => c.tag.isA type).getD false := by
  unfold isA content?
  cases s.get? h <;> rfl

lemma contains_eq (s : Store) (h : NodeHandle) : s.contains h = (s.content? h).isSome := by
  rw [contains, content?, Option.isSome_map]

lemma contains_of_isA {s : Store} {h : NodeHandle} {type : TypeTag} (hh : s.isA h type = true) :
    s.contains h = true := by
  rw [isA_eq] at hh
  rw [contains_eq]
  cases hc : s.content? h with
  | none => rw [hc] at hh; cases hh
  | some c => rfl

/-! ## Same contents -/

/-- Two stores have given out the same handles, and the nodes have the same contents. -/
structure SameContents (s s' : Store) : Prop extends SamePlaces s s' where
  content? : ∀ k, s'.content? k = s.content? k

namespace SameContents

variable {s s' s'' : Store}

lemma refl (s : Store) : SameContents s s := ⟨.refl s, fun _ => rfl⟩

lemma trans (h : SameContents s s') (h' : SameContents s' s'') : SameContents s s'' :=
  ⟨h.toSamePlaces.trans h'.toSamePlaces, fun k => (h'.content? k).trans (h.content? k)⟩

lemma isA (h : SameContents s s') (k : NodeHandle) (type : TypeTag) :
    s'.isA k type = s.isA k type := by
  rw [isA_eq, h.content?, isA_eq]

lemma fits (h : SameContents s s') {slot : Slot} {c : NodeHandle} (hc : s.Fits slot c) :
    s'.Fits slot c :=
  fun hs => (h.isA c _).trans (hc hs)

lemma of_sameNodes (h : SameNodes s s') : SameContents s s' :=
  ⟨h.toSamePlaces, h.map_get? _ fun _ => rfl⟩

lemma of_cells (hc : s'.cells = s.cells) (hv : s'.vacant = s.vacant) : SameContents s s' :=
  .of_sameNodes (.of_cells hc hv)

lemma modify (s : Store) (h : NodeHandle) {f : Node → Node}
    (hf : ∀ n, (f n).content = n.content) : SameContents s (s.modify h f) :=
  ⟨.modify s h f, fun k => map_get?_modify _ s h k hf⟩

lemma invalidate (s : Store) (h : NodeHandle) : SameContents s (s.invalidate h) :=
  .of_sameNodes (.invalidate s h)

lemma link (s : Store) (o : NodeHandle) (slot : Slot) (c : NodeHandle) :
    SameContents s (s.link o slot c) := by
  refine ⟨samePlaces_link s o slot c, fun k => ?_⟩
  rw [Store.content?, get?_link, Option.map_map, Store.content?]
  congr 1
  funext n
  rw [Function.comp_apply, Node.linked]
  split <;> simp

lemma unlink (s : Store) (o : NodeHandle) (slot : Slot) (c : NodeHandle) :
    SameContents s (s.unlink o slot c) := by
  refine ⟨samePlaces_unlink s o slot c, fun k => ?_⟩
  rw [Store.content?, get?_unlink, Option.map_map, Store.content?]
  congr 1
  funext n
  rw [Function.comp_apply, Node.unlinked]
  split <;> simp

lemma removeFrom (s : Store) (o : NodeHandle) (slot : Slot) (c : NodeHandle) :
    SameContents s (s.removeFrom o slot c).2 := by
  by_cases hc : c ∈ s.held o slot
  · rw [removeFrom_of_mem hc]
    exact (unlink s o slot c).trans (.invalidate _ o)
  · rw [removeFrom_of_not_mem hc]
    exact .refl s

lemma detach (s : Store) (c : NodeHandle) : SameContents s (s.detach c).2 := by
  unfold Store.detach
  split
  · exact .removeFrom s _ _ _
  · exact .refl s

lemma editRoster (s : Store) (h : NodeHandle) (slot : Slot) (f : Roster → Roster) :
    SameContents s (s.modify h (·.editRoster slot f)) :=
  .modify s h fun n => n.content_editRoster slot f

lemma tell (s : Store) (old new : String) (h : NodeHandle) (l : Listener) :
    SameContents s (s.tell old new h l).2 := by
  cases l with
  | roster owner slot => exact (editRoster s owner slot _).trans (.invalidate _ owner)
  | watcher number =>
    simp only [Store.tell]
    split <;> exact .refl s

end SameContents

end Store

end Semdoc
