import Semdoc.Proofs.Session.Operation
import Semdoc.Proofs.Session.Outcomes

/-!
# Ties between annotations and anchors

An annotation names its endpoints, and an anchor names the annotation that it belongs to.  Every edit that
binds no anchor leaves both alone, whether it succeeds or is refused: no other edit writes them, and new
nodes name nothing.
-/

namespace Semdoc

open Edit

/-! ## Endpoints and marks of contents -/

namespace Content

/-- The anchor at an endpoint, if the content is that of an annotation. -/
def endpoint? : Content → Endpoint → Option NodeHandle
  | .annotationEntity _ start _, .start => start
  | .annotationEntity _ _ stop, .stop => stop
  | _, _ => none

/-- The annotation that an anchor belongs to, if the content is that of an anchor. -/
def mark? : Content → Option NodeHandle
  | .anchor mark => mark
  | _ => none

/-- Two contents name the same anchors and the same annotation. -/
structure SameTies (c d : Content) : Prop where
  mark? : d.mark? = c.mark?
  endpoint? : d.endpoint? = c.endpoint?

/-- The content of an annotation with another anchor at an endpoint; other contents stay. -/
def repointed (which : Endpoint) (anchor : NodeHandle) : Content → Content
  | .annotationEntity e start stop =>
    match which with
    | .start => .annotationEntity e (some anchor) stop
    | .stop => .annotationEntity e start (some anchor)
  | c => c

lemma tag_repointed (which : Endpoint) (anchor : NodeHandle) (c : Content) :
    (c.repointed which anchor).tag = c.tag := by
  cases c <;> cases which <;> rfl

lemma mark?_repointed (which : Endpoint) (anchor : NodeHandle) (c : Content) :
    (c.repointed which anchor).mark? = c.mark? := by
  cases c <;> cases which <;> rfl

lemma endpoint?_repointed {c : Content} (hc : c.tag = .annotationEntity) (which w : Endpoint)
    (anchor : NodeHandle) :
    (c.repointed which anchor).endpoint? w = if w = which then some anchor else c.endpoint? w := by
  cases c with
  | annotationEntity e start stop => cases which <;> cases w <;> rfl
  | typesystem b => cases b <;> cases hc
  | type shape => cases shape <;> cases hc
  | _ => cases hc

lemma tag_anchored (mark : Option NodeHandle) (c : Content) : (anchored mark c).tag = c.tag := by
  cases c <;> rfl

lemma endpoint?_anchored (mark : Option NodeHandle) (c : Content) :
    (anchored mark c).endpoint? = c.endpoint? := by
  cases c <;> rfl

lemma mark?_anchored_none (c : Content) : (anchored none c).mark? = none := by
  cases c <;> rfl

lemma mark?_anchored {c : Content} (hc : c.tag = .anchor) (mark : Option NodeHandle) :
    (anchored mark c).mark? = mark := by
  cases c with
  | anchor m => rfl
  | typesystem b => cases b <;> cases hc
  | type shape => cases shape <;> cases hc
  | _ => cases hc

end Content

namespace Store

/-- The anchor at an endpoint of an annotation. -/
def endpoint? (s : Store) (mark : NodeHandle) (which : Endpoint) : Option NodeHandle :=
  (s.annotation? mark).bind fun a =>
    match which with
    | .start => a.start
    | .stop => a.stop

variable {s t u : Store}

lemma endpoint?_eq (s : Store) (mark : NodeHandle) (which : Endpoint) :
    s.endpoint? mark which = (s.content? mark).bind (·.endpoint? which) := by
  unfold endpoint? annotation?
  cases s.content? mark with
  | none => rfl
  | some c => cases c <;> cases which <;> rfl

lemma anchorAnnotation?_eq (s : Store) (x : NodeHandle) :
    s.anchorAnnotation? x = (s.content? x).bind Content.mark? := by
  unfold anchorAnnotation?
  cases s.content? x with
  | none => rfl
  | some c => cases c <;> rfl

/-- An endpoint of an annotation is at an anchor. -/
def Names (s : Store) (mark x : NodeHandle) : Prop := ∃ which, s.endpoint? mark which = some x

/-- In two stores annotations have the same endpoints, and anchors belong to the same annotations. -/
structure SameTies (s t : Store) : Prop where
  anchorAnnotation? : ∀ x, t.anchorAnnotation? x = s.anchorAnnotation? x
  endpoint? : ∀ mark which, t.endpoint? mark which = s.endpoint? mark which

namespace SameTies

lemma refl (s : Store) : SameTies s s := ⟨fun _ => rfl, fun _ _ => rfl⟩

lemma trans (h : SameTies s t) (h' : SameTies t u) : SameTies s u :=
  ⟨fun x => (h'.anchorAnnotation? x).trans (h.anchorAnnotation? x),
    fun mark which => (h'.endpoint? mark which).trans (h.endpoint? mark which)⟩

/-- A fold whose steps leave the ties of the store that it carries alone. -/
lemma foldl {α β : Type} (store : α → Store) {f : α → β → α}
    (hf : ∀ a b, SameTies (store a) (store (f a b))) (a : α) (bs : List β) :
    SameTies (store a) (store (bs.foldl f a)) := by
  induction bs generalizing a with
  | nil => exact .refl _
  | cons b rest ih => exact (hf a b).trans (ih (f a b))

lemma of_content? (hm : ∀ k, (t.content? k).bind Content.mark? = (s.content? k).bind Content.mark?)
    (he : ∀ k which, (t.content? k).bind (·.endpoint? which) =
      (s.content? k).bind (·.endpoint? which)) : SameTies s t := by
  refine ⟨fun x => ?_, fun mark which => ?_⟩
  · rw [anchorAnnotation?_eq, hm, anchorAnnotation?_eq]
  · rw [endpoint?_eq, he, endpoint?_eq]

lemma of_sameContents (h : SameContents s t) : SameTies s t :=
  of_content? (fun k => by rw [h.content?]) fun k which => by rw [h.content?]

end SameTies

/-- A node is added that names nothing. -/
lemma sameTies_create (hs : s.Intact) (name : String) {content : Content}
    (hc : Content.SameTies .document content) : SameTies s (s.create name content).2 := by
  have hn : s.content? s.nextHandle = none := by rw [content?, get?_nextHandle hs]; rfl
  have hm : content.mark? = none := hc.mark?
  have he : ∀ which, content.endpoint? which = none := fun which => congrFun hc.endpoint? which
  refine .of_content? (fun k => ?_) fun k which => ?_
  · rw [content?_create hs]
    split
    · next e => rw [e, hn]; exact hm
    · rfl
  · rw [content?_create hs]
    split
    · next e => rw [e, hn]; exact he which
    · rfl

end Store

/-! ## Edits that bind no anchors -/

namespace Edit

open Store

variable {α β : Type}

/-- An edit leaves the endpoints of annotations and the marks of anchors alone. -/
def Unbinding (e : Edit α) : Prop :=
  ∀ s : Store, s.Intact → (e.apply s).2.Intact ∧ SameTies s (e.apply s).2

namespace Unbinding

lemma of_sameContents {e : Edit α} (h : ∀ s : Store, SameContents s (e.apply s).2) :
    e.Unbinding :=
  fun s hs => ⟨(h s).intact hs, .of_sameContents (h s)⟩

lemma pure (a : α) : Unbinding (Pure.pure a : Edit α) := of_sameContents .refl

lemma throw (f : EditFault) : Unbinding (throw f : Edit α) := of_sameContents .refl

lemma get : Unbinding (MonadState.get : Edit Store) := of_sameContents .refl

lemma bind {e : Edit α} {f : α → Edit β} (he : e.Unbinding) (hf : ∀ a, (f a).Unbinding) :
    (e >>= f).Unbinding := by
  intro s hs
  obtain ⟨hi, ht⟩ := he s hs
  rw [apply_bind]
  split
  · next a t h =>
    rw [h] at hi ht
    exact ⟨(hf a t hi).1, ht.trans (hf a t hi).2⟩
  · next x t h =>
    rw [h] at hi ht
    exact ⟨hi, ht⟩

/-- A demand before the rest of an edit. -/
lemma guard {c : Prop} [Decidable c] {f : EditFault} {rest : Edit β} (h : rest.Unbinding) :
    Unbinding (if c then (do MonadExcept.throw f; rest) else rest) := by
  split
  · exact .bind (.throw f) fun _ => h
  · exact h

lemma modify {f : Store → Store} (hf : ∀ s, SameContents s (f s)) :
    Unbinding (modify f : Edit PUnit) :=
  of_sameContents hf

end Unbinding

lemma unbinding_create (name : String) {content : Content}
    (hc : Content.SameTies .document content) : (create name content).Unbinding := by
  intro s hs
  rw [create_apply]
  exact ⟨hs.create name content, sameTies_create hs name hc⟩

lemma unbinding_attach (o : NodeHandle) (slot : Slot) (c : NodeHandle) :
    (attach o slot c).Unbinding := by
  refine .of_sameContents fun s => ?_
  rw [attach_apply]
  split
  · exact .refl s
  · exact .place s o slot c

lemma unbinding_createIn (o : NodeHandle) (slot : Slot) (name : String) {content : Content}
    (hc : Content.SameTies .document content) : (createIn o slot name content).Unbinding :=
  .bind (unbinding_create name hc) fun h => .bind (unbinding_attach o slot h) fun _ => .pure h

/-- A change of the content of a node in which it goes on to name the same nodes. -/
lemma unbinding_revise {h : NodeHandle} {fault : EditFault} {f : Content → Option Content}
    (hf : ∀ c d, f c = some d → c.SameTies d) : (revise h fault f).Unbinding := by
  intro s hs
  have hi := SameContents.invalidate s h
  rw [revise_apply]
  split
  · next d hd =>
    obtain ⟨c, hc, hcd⟩ := Option.bind_eq_some_iff.1 hd
    obtain ⟨hm, he⟩ := hf c d hcd
    refine ⟨(hi.intact hs).modify _ _, (SameTies.of_sameContents hi).trans ?_⟩
    refine .of_content? (fun k => ?_) fun k which => ?_
    · rw [content?_modify _ _ _ fun _ => d]
      split
      · next e => rw [e, hc, Option.map_some, Option.bind_some, hm, Option.bind_some]
      · rfl
    · rw [content?_modify _ _ _ fun _ => d]
      split
      · next e => rw [e, hc, Option.map_some, Option.bind_some, he, Option.bind_some]
      · rfl
  · exact ⟨hi.intact hs, .of_sameContents hi⟩

lemma unbinding_demand (f : Store → Except EditFault α) : (demand f).Unbinding := by
  refine .of_sameContents fun s => ?_
  rw [demand_apply]
  exact .refl s

lemma unbinding_createSystemTypesystem : createSystemTypesystem.Unbinding := by
  refine .bind (unbinding_create _ ⟨rfl, rfl⟩) fun ts => ?_
  refine .bind (unbinding_createIn _ _ _ ⟨rfl, rfl⟩) fun _ => ?_
  refine .bind (unbinding_createIn _ _ _ ⟨rfl, rfl⟩) fun _ => ?_
  refine .bind (unbinding_createIn _ _ _ ⟨rfl, rfl⟩) fun _ => ?_
  exact .bind (unbinding_createIn _ _ _ ⟨rfl, rfl⟩) fun _ => .pure ts

lemma unbinding_createArrayType (ts inner : NodeHandle) :
    (createArrayType ts inner).Unbinding := by
  refine .bind .get fun s => ?_
  dsimp only
  split
  · exact .pure _
  · exact unbinding_createIn _ _ _ ⟨rfl, rfl⟩

lemma unbinding_setStructParent (type : NodeHandle) (parent : Option NodeHandle) :
    (setStructParent type parent).Unbinding := by
  apply unbinding_revise
  intro c d e
  split at e
  · cases e
    exact ⟨rfl, rfl⟩
  · cases e

lemma unbinding_reviseClass (h : NodeHandle) (f : ClassContent → ClassContent) :
    (reviseClass h f).Unbinding := by
  apply unbinding_revise
  intro c d e
  split at e
  · cases e
    exact ⟨rfl, rfl⟩
  · cases e

lemma unbinding_reviseField (h : NodeHandle) (f : FieldContent → FieldContent) :
    (reviseField h f).Unbinding := by
  apply unbinding_revise
  intro c d e
  split at e
  · cases e
    exact ⟨rfl, rfl⟩
  · cases e

lemma unbinding_reviseTokens (h : NodeHandle) (f : TokenPair → TokenPair) :
    (reviseTokens h f).Unbinding := by
  apply unbinding_revise
  intro c d e
  split at e <;> cases e <;> exact ⟨rfl, rfl⟩

lemma unbinding_setAttributes (entity : NodeHandle) (attributes : Value) :
    (setAttributes entity attributes).Unbinding := by
  apply unbinding_revise
  intro c d e
  split at e <;> cases e
  · exact ⟨rfl, rfl⟩
  · exact ⟨rfl, funext fun which => by cases which <;> rfl⟩

/-- The last step of a change of superclass, which the attributes of the class follow. -/
def inheritAttributes (h : NodeHandle) (superclass : Option NodeHandle) : Edit Unit := do
  let s ← get
  if let some attributes := s.attributesOf? h then
    setStructParent attributes (superclass.bind s.attributesOf?)

lemma unbinding_inheritAttributes (h : NodeHandle) (superclass : Option NodeHandle) :
    (inheritAttributes h superclass).Unbinding := by
  refine .bind .get fun s => ?_
  split
  · exact unbinding_setStructParent _ _
  · exact .pure _

lemma unbinding_setSuperclass (h : NodeHandle) (superclass : Option NodeHandle) :
    (setSuperclass h superclass).Unbinding := by
  have hinherit := unbinding_inheritAttributes h superclass
  have hattach : ∀ sup, Unbinding (do
      attach sup .classSubclasses h
      inheritAttributes h superclass) :=
    fun sup => .bind (unbinding_attach _ _ _) fun _ => hinherit
  have hleave : ∀ previous, Unbinding (modify fun s =>
      (s.removeFrom previous .classSubclasses h).2 : Edit PUnit) :=
    fun previous => .modify fun s => .removeFrom s _ _ _
  unfold setSuperclass
  refine .bind .get fun s => ?_
  cases superclass with
  | none =>
    dsimp only
    split
    · exact .throw _
    · split
      · split
        · exact .bind (hleave _) fun _ => .bind (unbinding_reviseClass _ _) fun _ => hinherit
        · exact .bind (unbinding_reviseClass _ _) fun _ => hinherit
      · exact .pure _
  | some sup =>
    refine .guard ?_
    dsimp only
    split
    · exact .throw _
    · split
      · split
        · exact .bind (hleave _) fun _ => .bind (unbinding_reviseClass _ _) fun _ => hattach sup
        · exact .bind (unbinding_reviseClass _ _) fun _ => hattach sup
      · exact .pure _

lemma unbinding_createClass (ontology : NodeHandle) (name : String) (cardinality : RangeSet)
    (superclass : Option NodeHandle) (transparent root : Bool) :
    (createClass ontology name cardinality superclass transparent root).Unbinding := by
  unfold createClass
  refine .bind (unbinding_createIn _ _ _ ⟨rfl, rfl⟩) fun h => ?_
  refine .bind (unbinding_createIn _ _ _ ⟨rfl, rfl⟩) fun _ => ?_
  dsimp only
  split
  · exact .bind (unbinding_setSuperclass h superclass) fun _ => .pure h
  · exact .pure h

lemma unbinding_sortFields (descriptor : NodeHandle) :
    Unbinding (modify (·.sortFields descriptor) : Edit PUnit) :=
  .modify fun s => .editRoster s _ _ _

lemma unbinding_addField (descriptor field : NodeHandle) :
    (addField descriptor field).Unbinding := by
  refine .bind .get fun s => .guard ?_
  exact .bind (unbinding_attach _ _ _) fun _ => unbinding_sortFields descriptor

lemma unbinding_createField (descriptor : NodeHandle) (type : FieldType) (name : String)
    (optional : Bool) (primitiveType : Option NodeHandle) :
    (createField descriptor type name optional primitiveType).Unbinding := by
  unfold createField
  dsimp only
  refine .bind (unbinding_create _ ⟨rfl, rfl⟩) fun h => ?_
  exact .bind (unbinding_addField descriptor h) fun _ => .pure h

lemma unbinding_moveField (descriptor field : NodeHandle) :
    (moveField descriptor field).Unbinding := by
  refine .bind .get fun s => ?_
  dsimp only
  refine .bind (unbinding_addField _ _) fun _ => ?_
  split
  · exact unbinding_sortFields _
  · exact .pure _

lemma unbinding_addChildClass (field h : NodeHandle) : (addChildClass field h).Unbinding := by
  refine .bind .get fun s => .guard ?_
  split
  · exact unbinding_attach _ _ _
  · exact .pure _

lemma unbinding_setFieldType (field : NodeHandle) (type : FieldType) :
    (setFieldType field type).Unbinding := by
  refine .bind (unbinding_reviseField _ _) fun _ => .bind .get fun s => ?_
  split
  · exact unbinding_sortFields _
  · exact .pure _

lemma unbinding_createEntity (descriptor : NodeHandle) (attributes : Option Value)
    (name : String) : (createEntity descriptor attributes name).Unbinding :=
  .bind .get fun _ => .guard (unbinding_create _ ⟨rfl, rfl⟩)

lemma unbinding_createRoot (document descriptor : NodeHandle) (attributes : Option Value)
    (name : String) : (createRoot document descriptor attributes name).Unbinding :=
  .bind (unbinding_createEntity _ _ _) fun h => .bind (unbinding_attach _ _ _) fun _ => .pure h

lemma unbinding_addStructureNode (entity h : NodeHandle) (number : Nat) :
    (addStructureNode entity h number).Unbinding := by
  refine .bind .get fun s => .guard <| .bind (unbinding_demand _) fun descriptor => ?_
  exact .guard (unbinding_attach _ _ _)

lemma unbinding_createChild (parent descriptor : NodeHandle) (attributes : Option Value)
    (field name : String) : (createChild parent descriptor attributes field name).Unbinding := by
  refine .bind (unbinding_demand _) fun number => ?_
  refine .bind (unbinding_createEntity _ _ _) fun h => ?_
  exact .bind (unbinding_addStructureNode _ _ _) fun _ => .pure h

lemma unbinding_createPrimitive (parent : NodeHandle) (v : Value) (field : String) :
    (createPrimitive parent v field).Unbinding := by
  refine .bind (unbinding_demand _) fun number => ?_
  refine .bind (unbinding_create _ ⟨rfl, rfl⟩) fun h => ?_
  exact .bind (unbinding_addStructureNode _ _ _) fun _ => .pure h

lemma unbinding_createAnchor (parent : NodeHandle) (field : String) :
    (createAnchor parent field).Unbinding := by
  refine .bind (unbinding_demand _) fun number => ?_
  refine .bind (unbinding_create _ ⟨rfl, rfl⟩) fun h => ?_
  exact .bind (unbinding_addStructureNode _ _ _) fun _ => .pure h

lemma sameContents_addRoot (s : Store) (h : NodeHandle) : SameContents s (s.addRoot h) := by
  unfold addRoot
  split
  · exact .refl s
  · exact .of_cells rfl rfl

lemma unbinding_createProject : createProject.Unbinding := by
  refine .bind unbinding_createSystemTypesystem fun system => ?_
  refine .bind (unbinding_create _ ⟨rfl, rfl⟩) fun project => ?_
  refine .bind (.modify fun s => ?_) fun _ => .pure project
  exact (sameContents_addRoot s system).trans (sameContents_addRoot _ project)

lemma unbinding_createProjectDocument (project : NodeHandle) (name : String) :
    (createProjectDocument project name).Unbinding :=
  unbinding_createIn _ _ _ ⟨rfl, rfl⟩

lemma unbinding_createProjectOntology (project : NodeHandle) (name : String) :
    (createProjectOntology project name).Unbinding := by
  refine .bind (unbinding_create _ ⟨rfl, rfl⟩) fun h => ?_
  refine .bind (unbinding_attach _ _ _) fun _ => .bind .get fun s => ?_
  dsimp only
  split
  · exact .bind (unbinding_attach _ _ _) fun _ => .pure h
  · exact .pure h

lemma unbinding_createProjectTypesystem (project : NodeHandle) (name : String) :
    (createProjectTypesystem project name).Unbinding := by
  refine .bind (unbinding_create _ ⟨rfl, rfl⟩) fun h => ?_
  refine .bind (unbinding_attach _ _ _) fun _ => .bind .get fun s => ?_
  dsimp only
  split
  · exact .bind (unbinding_attach _ _ _) fun _ => .pure h
  · exact .pure h

end Edit

/-! ## Operations that are no edits -/

namespace Store

variable {s : Store}

lemma sameTies_registerTokensOf (s : Store) (h : NodeHandle) (r : TokenRegistry) :
    SameTies s (s.registerTokensOf h r).2.2 := by
  unfold registerTokensOf
  split
  · exact .refl s
  · next c hc =>
    refine (SameTies.of_sameContents (.invalidate s h)).trans ?_
    have hc' := (SameContents.invalidate s h).content? h
    have hm : ∀ r' : TokenRegistry, (c.registerTokens r').2.1.mark? = c.mark? := by
      intro r'; cases c <;> rfl
    have he : ∀ r' : TokenRegistry, (c.registerTokens r').2.1.endpoint? = c.endpoint? := by
      intro r'; cases c <;> rfl
    refine .of_content? (fun k => ?_) fun k which => ?_
    · rw [content?_modify _ _ _ fun _ => (c.registerTokens r).2.1]
      split
      · next e => rw [e, hc', hc, Option.map_some, Option.bind_some, hm, Option.bind_some]
      · rfl
    · rw [content?_modify _ _ _ fun _ => (c.registerTokens r).2.1]
      split
      · next e => rw [e, hc', hc, Option.map_some, Option.bind_some, he, Option.bind_some]
      · rfl

lemma sameTies_registerOntologyTokens (s : Store) (o : NodeHandle) (r : TokenRegistry) :
    SameTies s (s.registerOntologyTokens o r).2.2 := by
  refine SameTies.foldl (fun p : List TokenId × TokenRegistry × Store => p.2.2) ?_ ([], r, s) _
  exact fun p h => sameTies_registerTokensOf p.2.2 h p.2.1

lemma sameContents_removeStructureNode (s : Store) (h : NodeHandle) :
    SameContents s (s.removeStructureNode h).2 := by
  unfold Store.removeStructureNode
  split
  · exact .removeFrom s _ _ _
  · exact .refl s

lemma sameTies_prepareAttributesOf (hs : s.Intact) (h : NodeHandle) :
    SameTies s (s.prepareAttributesOf h).value.2 := by
  unfold Store.prepareAttributesOf
  split
  · exact .refl s
  · split
    · exact .refl s
    · rw [Logged.value_bind]
      split
      · exact (Edit.unbinding_setAttributes _ _ s hs).2
      · exact .refl s

end Store

end Semdoc
