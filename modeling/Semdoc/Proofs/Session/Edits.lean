import Semdoc.Project
import Semdoc.Proofs.Store.Change

/-!
# Edits

Every edit comes down to elementary changes, whether it succeeds or is refused halfway.  For most of
them this follows from how they are put together.  Those that sort the fields of a class or change the
content of a node also need to know that the marks above are cleared by then.
-/

namespace Semdoc.Edit

open Relation Store

variable {α β : Type}

/-- An edit changes a sound store by elementary changes only. -/
def Makes (e : Edit α) : Prop := ∀ s : Store, s.Sound → Changes s (e.apply s).2

lemma apply_bind (e : Edit α) (f : α → Edit β) (s : Store) :
    (e >>= f).apply s =
      match e.apply s with
      | (.ok a, t) => (f a).apply t
      | (.error x, t) => (.error x, t) := by
  show (ExceptT.run (e >>= f)).run s = _
  rw [ExceptT.run_bind, StateT.run_bind]
  unfold apply
  generalize StateT.run (ExceptT.run e) s = r
  obtain ⟨_ | _, _⟩ := r <;> rfl

/-- What comes after an edit has to be looked at in the store that the edit leaves. -/
lemma changes_bind {e : Edit α} {f : α → Edit β} {s : Store} (hs : s.Sound)
    (he : Changes s (e.apply s).2)
    (hf : ∀ a t, t.Sound → e.apply s = (.ok a, t) → Changes t ((f a).apply t).2) :
    Changes s ((e >>= f).apply s).2 := by
  rw [apply_bind]
  split
  · next a t h =>
    rw [h] at he
    exact he.trans (hf a t (hs.changes he) h)
  · next x t h =>
    rw [h] at he
    exact he

namespace Makes

lemma pure (a : α) : Makes (Pure.pure a : Edit α) := fun _ _ => .refl

lemma throw (f : EditFault) : Makes (throw f : Edit α) := fun _ _ => .refl

lemma get : Makes (MonadState.get : Edit Store) := fun _ _ => .refl

lemma bind {e : Edit α} {f : α → Edit β} (he : e.Makes) (hf : ∀ a, (f a).Makes) :
    (e >>= f).Makes :=
  fun s hs => changes_bind hs (he s hs) fun a t ht _ => hf a t ht

/-- A demand before the rest of an edit. -/
lemma guard {c : Prop} [Decidable c] {f : EditFault} {rest : Edit β} (h : rest.Makes) :
    Makes (if c then (do MonadExcept.throw f; rest) else rest) := by
  split
  · exact .bind (.throw f) fun _ => h
  · exact h

lemma modify {f : Store → Store} (hf : ∀ s : Store, s.Sound → Changes s (f s)) :
    Makes (modify f : Edit PUnit) := hf

lemma modifyGet {f : Store → α × Store} (hf : ∀ s : Store, s.Sound → Changes s (f s).2) :
    Makes (modifyGet f : Edit α) := hf

end Makes

lemma makes_create (name : String) (content : Content) (he : content.endpoints = []) :
    (create name content).Makes :=
  .modifyGet fun _ _ => .single (.create name content he)

lemma get_bind_apply (f : Store → Edit β) (s : Store) :
    ((get : Edit Store) >>= f).apply s = (f s).apply s := rfl

lemma changes_attach {s : Store} (hs : s.Sound) {o c : NodeHandle} {slot : Slot}
    (hfit : s.Fits slot c) : Changes s ((attach o slot c).apply s).2 := by
  unfold attach
  rw [get_bind_apply]
  split
  · exact .refl
  · next hf => exact hs.changes_place hf hfit

/-- A node of any kind can be referred to. -/
lemma makes_attach {o : NodeHandle} {slot : Slot} {c : NodeHandle}
    (hslot : slot.isComposition = false) : (attach o slot c).Makes :=
  fun s hs => changes_attach hs fun h => by rw [hslot] at h; cases h

/-- A new node is of the kind of its content. -/
lemma isA_create {s t : Store} (hs : s.Sound) {name : String} {content : Content} {h : NodeHandle}
    (hc : (create name content).apply s = (.ok h, t)) (type : TypeTag) :
    t.isA h type = content.tag.isA type := by
  have e : s.create name content = (h, t) := by
    cases hc
    rfl
  have hh := fst_create s name content
  have hget := hs.intact.get?_create name content h
  rw [e] at hh hget
  rw [if_pos hh] at hget
  rw [isA, hget]
  rfl

/-- Adding a node in a slot for its kind before the rest of an edit. -/
lemma makes_create_attach {o : NodeHandle} {slot : Slot} {name : String} {content : Content}
    {rest : NodeHandle → Edit β} (he : content.endpoints = [])
    (hk : content.tag.isA slot.kind = true) (hr : ∀ h, (rest h).Makes) :
    Makes (do
      let h ← create name content
      attach o slot h
      rest h) := by
  intro s hs
  refine changes_bind hs (makes_create name content he s hs) fun h t ht hc => ?_
  refine changes_bind ht (changes_attach ht fun _ => ?_) fun _ u hu _ => hr h u hu
  rwa [isA_create hs hc]

lemma revise_apply (h : NodeHandle) (fault : EditFault) (f : Content → Option Content)
    (s : Store) :
    (revise h fault f).apply s =
      match ((s.invalidate h).content? h).bind f with
      | some content => (.ok (), (s.invalidate h).modify h fun n => { n with content })
      | none => (.error fault, s.invalidate h) := by
  show ((do
    match ((← get).content? h).bind f with
    | some content => modify (·.modify h fun n => { n with content })
    | none => throw fault : Edit Unit)).apply (s.invalidate h) = _
  rw [get_bind_apply]
  split <;> rfl

/-- An edit refuses or changes the content of a node in place, which keeps its slots and its kind. -/
lemma changes_revise {s : Store} (hs : s.Sound) {h : NodeHandle} {fault : EditFault}
    {f : Content → Option Content} (hf : ∀ c d, f c = some d → s.Revisable c d) :
    Changes s ((revise h fault f).apply s).2 := by
  have h1 : Changes s (s.invalidate h) := .single (.invalidate h)
  have hsame := SameContents.invalidate s h
  rw [revise_apply]
  split
  · next d hd =>
    refine h1.tail (.revise h (fun _ => d) ?_ (hs.clear_invalidate h))
    intro n hn
    obtain ⟨c, hc, hcd⟩ := Option.bind_eq_some_iff.1 hd
    rw [content?, hn, Option.map_some, Option.some.injEq] at hc
    subst hc
    obtain ⟨hslots, htag, hends⟩ := hf _ _ hcd
    refine ⟨hslots, htag, fun a ha => ?_⟩
    rw [hsame.isA]
    exact hends a ha
  · exact h1

/-- A change of the content of a node that does not touch the endpoints of annotations. -/
lemma makes_revise {h : NodeHandle} {fault : EditFault} {f : Content → Option Content}
    (hf : ∀ c d, f c = some d → c.SameSlots d ∧ d.tag = c.tag ∧ d.endpoints = c.endpoints) :
    (revise h fault f).Makes := by
  refine fun s hs => changes_revise hs fun c d hcd => ?_
  obtain ⟨hslots, htag, hends⟩ := hf c d hcd
  exact .of_eq hslots htag hends

/-- Whether it refuses or not, a change of the content of a node leaves the node clear. -/
lemma clear_revise {s : Store} (hs : s.Sound) (h : NodeHandle) (fault : EditFault)
    (f : Content → Option Content) : ((revise h fault f).apply s).2.Clear h := by
  have hc := hs.clear_invalidate h
  rw [revise_apply]
  split
  · exact hc.modify h (fun _ => rfl) fun _ => rfl
  · exact hc

lemma makes_createIn {o : NodeHandle} {slot : Slot} {name : String} {content : Content}
    (he : content.endpoints = []) (hk : content.tag.isA slot.kind = true) :
    (createIn o slot name content).Makes :=
  makes_create_attach he hk fun h => .pure h

/-! ## Typesystems -/

lemma makes_createType (ts : NodeHandle) (name : String) (shape : TypeShape) :
    (createType ts name shape).Makes :=
  makes_createIn rfl (TypeTag.isA_typeNode shape)

lemma makes_createSystemTypesystem : createSystemTypesystem.Makes := by
  refine .bind (makes_create _ _ rfl) fun ts => ?_
  refine .bind (makes_createType _ _ _) fun _ => ?_
  refine .bind (makes_createType _ _ _) fun _ => ?_
  refine .bind (makes_createType _ _ _) fun _ => ?_
  exact .bind (makes_createType _ _ _) fun _ => .pure ts

lemma makes_createArrayType (ts inner : NodeHandle) : (createArrayType ts inner).Makes := by
  refine .bind .get fun s => ?_
  dsimp only
  split
  · exact .pure _
  · exact makes_createType _ _ _

lemma makes_createAttribute (struct : NodeHandle) (name : String) (type : Option NodeHandle)
    (substitute : Option Value) : (createAttribute struct name type substitute).Makes :=
  makes_createIn rfl (TypeTag.isA_self _)

lemma makes_setStructParent (type : NodeHandle) (parent : Option NodeHandle) :
    (setStructParent type parent).Makes := by
  apply makes_revise
  intro c d e
  split at e
  · cases e
    exact ⟨⟨rfl, rfl, rfl⟩, rfl, rfl⟩
  · cases e

/-! ## Ontologies -/

lemma makes_reviseClass (h : NodeHandle) (f : ClassContent → ClassContent) :
    (reviseClass h f).Makes := by
  apply makes_revise
  intro c d e
  split at e
  · cases e
    exact ⟨⟨rfl, rfl, rfl⟩, rfl, rfl⟩
  · cases e

lemma makes_reviseField (h : NodeHandle) (f : FieldContent → FieldContent) :
    (reviseField h f).Makes := by
  apply makes_revise
  intro c d e
  split at e
  · cases e
    exact ⟨⟨rfl, rfl, rfl⟩, rfl, rfl⟩
  · cases e

lemma makes_reviseTokens (h : NodeHandle) (f : TokenPair → TokenPair) :
    (reviseTokens h f).Makes := by
  apply makes_revise
  intro c d e
  split at e <;> cases e <;> exact ⟨⟨rfl, rfl, rfl⟩, rfl, rfl⟩

lemma makes_removeFrom (o : NodeHandle) (slot : Slot) (c : NodeHandle) :
    Makes (modify fun s => (s.removeFrom o slot c).2) :=
  .modify fun _ _ => .single (.remove o slot c)

/-- The last step of a change of superclass: the attributes are inherited from the new one. -/
lemma makes_inheritAttributes (h : NodeHandle) (superclass : Option NodeHandle) (s : Store) :
    Makes (match s.attributesOf? h with
      | some attributes => setStructParent attributes (superclass.bind s.attributesOf?)
      | _ => Pure.pure ()) := by
  split
  · exact makes_setStructParent _ _
  · exact .pure _

lemma makes_setSuperclass (h : NodeHandle) (superclass : Option NodeHandle) :
    (setSuperclass h superclass).Makes := by
  unfold setSuperclass
  refine .bind .get fun s => ?_
  cases superclass with
  | none =>
    dsimp only
    split
    · exact .throw _
    · split
      · split
        · refine .bind (makes_removeFrom _ _ _) fun _ => ?_
          exact .bind (makes_reviseClass _ _) fun _ =>
            .bind .get (makes_inheritAttributes h none)
        · exact .bind (makes_reviseClass _ _) fun _ =>
            .bind .get (makes_inheritAttributes h none)
      · exact .pure _
  | some sup =>
    refine .guard ?_
    dsimp only
    split
    · exact .throw _
    · split
      · split
        · refine .bind (makes_removeFrom _ _ _) fun _ => ?_
          exact .bind (makes_reviseClass _ _) fun _ =>
            .bind (makes_attach rfl) fun _ => .bind .get (makes_inheritAttributes h (some sup))
        · exact .bind (makes_reviseClass _ _) fun _ =>
            .bind (makes_attach rfl) fun _ => .bind .get (makes_inheritAttributes h (some sup))
      · exact .pure _

lemma makes_createAttributes (h : NodeHandle) : (createAttributes h).Makes :=
  makes_createIn rfl (TypeTag.isA_self _)

lemma makes_createClass (ontology : NodeHandle) (name : String) (cardinality : RangeSet)
    (superclass : Option NodeHandle) (transparent root : Bool) :
    (createClass ontology name cardinality superclass transparent root).Makes := by
  unfold createClass
  refine .bind (makes_createIn rfl (TypeTag.isA_self _)) fun h => ?_
  refine .bind (makes_createAttributes h) fun _ => ?_
  dsimp only
  split
  · exact .bind (makes_setSuperclass h superclass) fun _ => .pure h
  · exact .pure h

lemma makes_createAnnotationClass (ontology : NodeHandle) (name : String) :
    (createAnnotationClass ontology name).Makes := by
  refine .bind (makes_createIn rfl (TypeTag.isA_self _)) fun h => ?_
  exact .bind (makes_createAttributes h) fun _ => .pure h

lemma addField_apply (descriptor field : NodeHandle) (s : Store) :
    (∃ fault, (addField descriptor field).apply s = (.error fault, s)) ∨
      s.Fits .descriptorFields field ∧ s.attachFault? descriptor .descriptorFields field = none ∧
        (addField descriptor field).apply s =
          (.ok (), (s.place descriptor .descriptorFields field).sortFields descriptor) := by
  unfold addField
  rw [get_bind_apply]
  split
  · exact .inl ⟨_, rfl⟩
  · next hfield =>
    rw [apply_bind, attach, get_bind_apply]
    cases hf : s.attachFault? descriptor .descriptorFields field with
    | some fault => exact .inl ⟨fault, rfl⟩
    | none => exact .inr ⟨fun _ => by simpa [Slot.kind] using hfield, rfl, rfl⟩

/-- The fields of a class are sorted when its mark is cleared already. -/
lemma makes_addField (descriptor field : NodeHandle) : (addField descriptor field).Makes := by
  intro s hs
  rcases addField_apply descriptor field s with ⟨fault, e⟩ | ⟨hfit, hf, e⟩
  · rw [e]
    exact .refl
  · rw [e]
    exact (hs.changes_place hf hfit).tail (.sort _ _ _ (hs.clear_place hf))

lemma makes_createField (descriptor : NodeHandle) (type : FieldType) (name : String)
    (optional : Bool) (primitiveType : Option NodeHandle) :
    (createField descriptor type name optional primitiveType).Makes := by
  unfold createField
  dsimp only
  refine .bind (makes_create _ _ rfl) fun h => ?_
  exact .bind (makes_addField descriptor h) fun _ => .pure h

lemma makes_moveField (descriptor field : NodeHandle) : (moveField descriptor field).Makes := by
  intro s hs
  have hadd := makes_addField descriptor field s hs
  unfold moveField
  rw [get_bind_apply]
  dsimp only
  rw [apply_bind]
  rcases addField_apply descriptor field s with ⟨fault, e⟩ | ⟨-, hf, e⟩
  · rw [e] at hadd ⊢
    exact hadd
  · rw [e] at hadd ⊢
    cases hp : s.parent? field with
    | none => exact hadd
    | some p =>
      refine hadd.tail (.sort p _ _ ?_)
      apply Clear.modify
      · exact hs.clear_place_of_isParent hf rfl hp
      · exact (Node.SlotsOnly.editRoster _ _).home
      · exact (Node.SlotsOnly.editRoster _ _).validated

lemma makes_addChildClass (field h : NodeHandle) : (addChildClass field h).Makes := by
  refine .bind .get fun s => ?_
  refine .guard ?_
  split
  · exact makes_attach rfl
  · exact .pure _

/-- Changing the kind of a field sorts the fields of its class, whose mark is cleared with that of
the field. -/
lemma makes_setFieldType (field : NodeHandle) (type : FieldType) :
    (setFieldType field type).Makes := by
  intro s hs
  have hrev := makes_reviseField field (fun f => { f with type }) s hs
  have hclear : ((reviseField field fun f => { f with type }).apply s).2.Clear field :=
    clear_revise hs _ _ _
  unfold setFieldType
  rw [apply_bind]
  split
  · next e =>
    rw [e] at hrev hclear
    rw [get_bind_apply]
    split
    · next p hp => exact hrev.tail (.sort p _ _ (hclear.of_isParent hp))
    · exact hrev
  · next e =>
    rw [e] at hrev
    exact hrev

/-! ## Documents -/

lemma makes_demand (f : Store → Except EditFault α) : (demand f).Makes := by
  refine .bind .get fun s => ?_
  split
  · exact .pure _
  · exact .throw _

lemma demand_apply (f : Store → Except EditFault α) (s : Store) :
    (demand f).apply s = (f s, s) := by
  unfold demand
  rw [get_bind_apply]
  split
  · next a h => rw [h]; rfl
  · next x h => rw [h]; rfl

lemma makes_createEntity (descriptor : NodeHandle) (attributes : Option Value) (name : String) :
    (createEntity descriptor attributes name).Makes := by
  refine .bind .get fun s => ?_
  exact .guard (makes_create _ _ rfl)

lemma isA_createEntity {s t : Store} (hs : s.Sound) {descriptor h : NodeHandle}
    {attributes : Option Value} {name : String}
    (hc : (createEntity descriptor attributes name).apply s = (.ok h, t)) :
    t.isA h .structuredEntity = true := by
  unfold createEntity at hc
  rw [get_bind_apply] at hc
  split at hc
  · cases hc
  · rw [isA_create hs hc]
    exact TypeTag.isA_self _

lemma makes_createRoot (document descriptor : NodeHandle) (attributes : Option Value)
    (name : String) : (createRoot document descriptor attributes name).Makes := by
  intro s hs
  refine changes_bind hs (makes_createEntity _ _ _ s hs) fun h t ht hc => ?_
  have hfit : t.Fits .documentRoot h := fun _ => isA_createEntity hs hc
  exact changes_bind ht (changes_attach ht hfit) fun _ u hu _ => .refl

lemma makes_addStructureNode (entity h : NodeHandle) (number : Nat) :
    (addStructureNode entity h number).Makes := by
  intro s hs
  unfold addStructureNode
  rw [get_bind_apply]
  split
  · exact .refl
  · next hh =>
    have hfit : s.Fits (.entityField number) h := fun _ => by simpa [Slot.kind] using hh
    refine changes_bind hs (makes_demand _ s hs) fun descriptor t ht hd => ?_
    -- the question leaves the store as it is
    rw [demand_apply] at hd
    obtain rfl : s = t := (Prod.mk.inj hd).2
    dsimp only
    split
    · exact .refl
    · exact changes_attach ht hfit

lemma makes_createChild (parent descriptor : NodeHandle) (attributes : Option Value)
    (field name : String) : (createChild parent descriptor attributes field name).Makes := by
  refine .bind (makes_demand _) fun number => ?_
  refine .bind (makes_createEntity _ _ _) fun h => ?_
  exact .bind (makes_addStructureNode _ _ _) fun _ => .pure h

lemma makes_createPrimitive (parent : NodeHandle) (v : Value) (field : String) :
    (createPrimitive parent v field).Makes := by
  refine .bind (makes_demand _) fun number => ?_
  refine .bind (makes_create _ _ rfl) fun h => ?_
  exact .bind (makes_addStructureNode _ _ _) fun _ => .pure h

lemma makes_createAnchor (parent : NodeHandle) (field : String) :
    (createAnchor parent field).Makes := by
  refine .bind (makes_demand _) fun number => ?_
  refine .bind (makes_create _ _ rfl) fun h => ?_
  exact .bind (makes_addStructureNode _ _ _) fun _ => .pure h

/-- The content of an anchor that belongs to something else; other contents stay. -/
def anchored (mark : Option NodeHandle) : Content → Content
  | .anchor _ => .anchor mark
  | c => c

lemma revisable_anchored (s : Store) (mark : Option NodeHandle) (c : Content) :
    s.Revisable c (anchored mark c) := by
  cases c <;> exact .of_eq ⟨rfl, rfl, rfl⟩ rfl rfl

lemma makes_reviseAnchor (anchor : NodeHandle) (mark : Option NodeHandle) :
    (reviseAnchor anchor mark).Makes := by
  refine .modify fun s hs => ?_
  have h : Changes s ((s.invalidate anchor).modify anchor fun n =>
      { n with content := anchored mark n.content }) :=
    .tail (.single (.invalidate anchor))
      (.revise anchor _ (fun n _ => revisable_anchored _ mark n.content) (hs.clear_invalidate anchor))
  convert h using 3 with n
  cases hc : n.content <;> simp only [anchored] <;> rw [← hc]

/-- Only anchors become endpoints. -/
lemma makes_bindAnchor (mark anchor : NodeHandle) (which : Endpoint) :
    (bindAnchor mark anchor which).Makes := by
  intro s hs
  unfold bindAnchor
  rw [get_bind_apply]
  cases ha : s.isA anchor .anchor with
  | false => exact .refl
  | true =>
    refine changes_bind hs (changes_revise hs ?_) fun _ t ht _ => ?_
    · intro c d e
      split at e
      · next en start stop =>
        cases which with
        | start =>
          cases e
          refine ⟨⟨rfl, rfl, rfl⟩, rfl, fun a hm => ?_⟩
          rcases List.mem_append.1 hm with hm | hm
          · obtain rfl : a = anchor := by simpa using hm
            exact .inr ha
          · exact .inl (List.mem_append_right _ hm)
        | stop =>
          cases e
          refine ⟨⟨rfl, rfl, rfl⟩, rfl, fun a hm => ?_⟩
          rcases List.mem_append.1 hm with hm | hm
          · exact .inl (List.mem_append_left _ hm)
          · obtain rfl : a = anchor := by simpa using hm
            exact .inr ha
      · cases e
    · have hrest : ∀ p, Makes (do reviseAnchor p none; reviseAnchor anchor (some mark)) :=
        fun p => .bind (makes_reviseAnchor _ _) fun _ => makes_reviseAnchor _ _
      split
      · split
        · exact hrest _ t ht
        · exact makes_reviseAnchor _ _ t ht
      · exact makes_reviseAnchor _ _ t ht

lemma makes_createAnnotation (document descriptor : NodeHandle) (attributes : Option Value)
    (start stop : Option NodeHandle) (name : String) :
    ( createAnnotation document descriptor attributes start stop name).Makes := by
  refine .bind .get fun s => ?_
  refine .guard ?_
  refine .bind (makes_createIn rfl (TypeTag.isA_self _)) fun h => ?_
  cases start <;> cases stop <;> dsimp only
  · exact .pure h
  · exact .bind (makes_bindAnchor _ _ _) fun _ => .pure h
  · exact .bind (makes_bindAnchor _ _ _) fun _ => .pure h
  · exact .bind (makes_bindAnchor _ _ _) fun _ => .bind (makes_bindAnchor _ _ _) fun _ => .pure h

lemma makes_setAttributes (entity : NodeHandle) (attributes : Value) :
    (setAttributes entity attributes).Makes := by
  apply makes_revise
  intro c d e
  split at e <;> cases e <;> exact ⟨⟨rfl, rfl, rfl⟩, rfl, rfl⟩

/-! ## Projects -/

lemma makes_createProject : createProject.Makes := by
  refine .bind makes_createSystemTypesystem fun system => ?_
  refine .bind (makes_create _ _ rfl) fun project => ?_
  refine .bind (.modify fun s _ => ?_) fun _ => .pure project
  exact .tail (.single (.root system)) (.root project)

lemma makes_createProjectDocument (project : NodeHandle) (name : String) :
    (createProjectDocument project name).Makes :=
  makes_create_attach rfl (TypeTag.isA_self _) fun h => .pure h

lemma makes_createProjectOntology (project : NodeHandle) (name : String) :
    (createProjectOntology project name).Makes := by
  refine makes_create_attach rfl (TypeTag.isA_self _) fun h => .bind .get fun s => ?_
  dsimp only
  split
  · exact .bind (makes_attach rfl) fun _ => .pure h
  · exact .pure h

lemma makes_createProjectTypesystem (project : NodeHandle) (name : String) :
    (createProjectTypesystem project name).Makes := by
  refine makes_create_attach rfl (TypeTag.isA_self _) fun h => .bind .get fun s => ?_
  dsimp only
  split
  · exact .bind (makes_attach rfl) fun _ => .pure h
  · exact .pure h

end Semdoc.Edit
