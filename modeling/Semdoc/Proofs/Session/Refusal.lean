import Semdoc.Proofs.Session.Collection
import Semdoc.Proofs.Session.Halfway

/-!
# Refused operations

An operation that is refused leaves everything as it was, and what it has added is out of reach, unless it
breaks off.  Handles are not given out twice, so that nothing comes back to where a dropped node is still
listed.
-/

namespace Semdoc

open Edit Store Relation

/-- The reason why something is refused. -/
def faultOf? {α : Type} : Except EditFault α → Option EditFault
  | .error fault => some fault
  | .ok _ => none

/-- The reason why an edit is refused, if it is. -/
def Edit.fault? {α : Type} (e : Edit α) (s : Store) : Option EditFault := faultOf? (e.apply s).1

/-- The reason why an operation is refused, if it is. -/
def Operation.fault? (s : Store) : Operation → Option EditFault
  | createProject => Edit.createProject.fault? s
  | createProjectDocument p name => (Edit.createProjectDocument p name).fault? s
  | createProjectOntology p name => (Edit.createProjectOntology p name).fault? s
  | createProjectTypesystem p name => (Edit.createProjectTypesystem p name).fault? s
  | createTypesystem name => (Edit.createTypesystem name).fault? s
  | createSystemTypesystem => Edit.createSystemTypesystem.fault? s
  | createType ts name shape => (Edit.createType ts name shape).fault? s
  | createEnumerationType ts name constants =>
    faultOf? (s.createEnumerationType ts name constants).value.1
  | createArrayType ts inner => (Edit.createArrayType ts inner).fault? s
  | createStructType ts name => (Edit.createStructType ts name).fault? s
  | createAttribute struct name type substitute =>
    (Edit.createAttribute struct name type substitute).fault? s
  | setStructParent type parent => (Edit.setStructParent type parent).fault? s
  | addTypesystemInclude ts included => (Edit.addTypesystemInclude ts included).fault? s
  | createOntology name => (Edit.createOntology name).fault? s
  | createClass o name cardinality superclass transparent root =>
    (Edit.createClass o name cardinality superclass transparent root).fault? s
  | createAnnotationClass o name => (Edit.createAnnotationClass o name).fault? s
  | createField d type name optional primitiveType =>
    (Edit.createField d type name optional primitiveType).fault? s
  | addField d field => (Edit.addField d field).fault? s
  | moveField d field => (Edit.moveField d field).fault? s
  | addChildClass field h => (Edit.addChildClass field h).fault? s
  | setSuperclass h superclass => (Edit.setSuperclass h superclass).fault? s
  | setCardinality h cardinality => (Edit.setCardinality h cardinality).fault? s
  | setTransparent h transparent => (Edit.setTransparent h transparent).fault? s
  | setRoot h root => (Edit.setRoot h root).fault? s
  | setShortToken h token => (Edit.setShortToken h token).fault? s
  | setStartToken h token => (Edit.setStartToken h token).fault? s
  | setStopToken h token => (Edit.setStopToken h token).fault? s
  | setFieldType field type => (Edit.setFieldType field type).fault? s
  | setFieldOptional field optional => (Edit.setFieldOptional field optional).fault? s
  | setFieldWhitespace field whitespace => (Edit.setFieldWhitespace field whitespace).fault? s
  | addOntologyDependency o dependency => (Edit.addOntologyDependency o dependency).fault? s
  | addOntologyTypesystem o ts => (Edit.addOntologyTypesystem o ts).fault? s
  | createDocument name => (Edit.createDocument name).fault? s
  | addDocumentOntology d o => (Edit.addDocumentOntology d o).fault? s
  | addDocumentTypesystem d ts => (Edit.addDocumentTypesystem d ts).fault? s
  | createRoot d descriptor attributes name => (Edit.createRoot d descriptor attributes name).fault? s
  | createChild parent descriptor attributes field name =>
    (Edit.createChild parent descriptor attributes field name).fault? s
  | createPrimitive parent v field => (Edit.createPrimitive parent v field).fault? s
  | createAnchor parent field => (Edit.createAnchor parent field).fault? s
  | createAnnotation d descriptor attributes start stop name =>
    ( Edit.createAnnotation d descriptor attributes start stop name).fault? s
  | bindAnchor mark anchor which => (Edit.bindAnchor mark anchor which).fault? s
  | addStructureNode entity h number => (Edit.addStructureNode entity h number).fault? s
  | setAttributes entity attributes => (Edit.setAttributes entity attributes).fault? s
  -- what does not work changes nothing and is no reason to refuse
  | registerOntologyTokens .. | removeStructureNode _ | prepareAttributesOf _ | setName .. |
    setLocation .. | addWatcher _ | removeWatcher _ | addRoot _ | removeRoot _ | invalidate _ => none

lemma Edit.fault?_eq_some {α : Type} {e : Edit α} {s : Store} {fault : EditFault}
    (h : e.fault? s = some fault) : e.apply s = (.error fault, (e.apply s).2) := by
  unfold Edit.fault? at h
  generalize e.apply s = r at h ⊢
  obtain ⟨_ | _, t⟩ := r
  · cases h
    rfl
  · cases h

/-! ## Reaching nodes -/

/-- A connection leads to a node in a slot, or to one that the content names. -/
lemma Node.Shaped.held_or_references {n : Node} (hn : n.Shaped) {e : Edge} (he : e ∈ n.edges) :
    (∃ slot, e.target ∈ n.held slot) ∨ e.target ∈ n.content.references := by
  rcases List.mem_append.1 he with he | he
  · rcases List.mem_append.1 he with he | he
    · obtain ⟨c, hc, rfl⟩ := List.mem_map.1 he
      rw [Option.mem_toList] at hc
      obtain ⟨slot, hslot⟩ := Option.isSome_iff_exists.1 (hn.single_slot (by rw [hc]; rfl))
      have hsingle := Content.isSingle_of_singleSlot? hslot
      exact .inl ⟨slot, by simp [held, hsingle, hslot, hc]⟩
    · obtain ⟨c, hc, rfl⟩ := List.mem_map.1 he
      exact .inr hc
  · obtain ⟨⟨slot, r⟩, hr, he⟩ := List.mem_flatMap.1 he
    obtain ⟨c, hc, rfl⟩ := List.mem_map.1 he
    have hsingle : slot.isSingle = false := hn.not_isSingle (List.mem_map_of_mem hr)
    refine .inl ⟨slot, ?_⟩
    rw [held_of_not_isSingle n hsingle, hn.rosterAt_of_mem hr]
    exact hc

namespace Store

variable {s t : Store}

/-- A node is in a slot of another one. -/
def InSlot (s : Store) (p c : NodeHandle) : Prop := ∃ slot, c ∈ s.held p slot

/-- A node has a connection to another one, through a slot or in its content. -/
def Connects (s : Store) (p c : NodeHandle) : Prop := ∃ e ∈ s.edges p, e.target = c

/-- No content names a handle before it is given out. -/
def Grounded (s : Store) : Prop := ∀ h c, s.content? h = some c → ∀ r ∈ c.references, s.Issued r

/-- Nothing that was in a store before has changed but for marks, and no node has come to it that was not
there before: neither through slots nor through any connections.  A content may have named the handle of a
node before there was one. -/
structure Untouched (s t : Store) : Prop where
  kept : ∀ h n, s.get? h = some n → ∃ m, t.get? h = some m ∧ m.unmarked = n.unmarked
  held : ∀ a c, s.contains a = true → ReflTransGen t.InSlot a c → t.contains c = true →
    s.contains c = true
  connected : s.Grounded → ∀ a c, s.contains a = true → ReflTransGen t.Connects a c →
    t.contains c = true → s.contains c = true

/-- Nodes are dropped by collecting only. -/
lemma Changes.contains (h : Changes s t) (hs : s.Sound) {k : NodeHandle}
    (hk : s.contains k = true) : t.contains k = true := by
  refine (h.keep (P := fun t => t.contains k = true) (fun s t hs hk h => ?_) hs hk).2
  rcases h.cases_quiet with h | ⟨name, content, rfl⟩ | ⟨o, slot, c, -, rfl⟩ |
    ⟨o, slot, c, -, -, -, rfl⟩
  · rw [h.contains, hk]
  · rw [Store.contains, hs.intact.get?_create]
    split
    · rfl
    · exact hk
  · rw [(SameNodes.invalidate _ o).contains, contains_unlink, hk]
  · rw [(SameNodes.invalidate _ o).contains, contains_link, hk]

/-- Every handle in a slot has been given out. -/
def HeldIssued (s : Store) : Prop := ∀ p slot c, c ∈ s.held p slot → s.Issued c

namespace HeldIssued

lemma empty : HeldIssued {} := by
  intro p slot c hc
  rw [Store.held, get?_empty] at hc
  cases hc

lemma of_quiet (hi : s.HeldIssued) (h : Quiet s t) : t.HeldIssued :=
  fun p slot c hc => (h.issued c).2 (hi p slot c ((h.held p slot).mem_iff.1 hc))

lemma change (hi : s.HeldIssued) (hs : s.Sound) (h : Change s t) : t.HeldIssued := by
  rcases h.cases_quiet with h | ⟨name, content, rfl⟩ | ⟨o, slot, c, hm, rfl⟩ |
    ⟨o, slot, c, ha, hl, -, rfl⟩
  · exact hi.of_quiet h
  · intro p slot c hc
    rw [Store.held, hs.intact.get?_create] at hc
    split at hc
    · rw [Option.map_some, Option.getD_some, Node.held_new] at hc
      cases hc
    · exact (hi p slot c hc).create hs.intact name content
  · refine of_quiet (fun p sl d hd => ?_) (.invalidate _ o)
    rw [(samePlaces_unlink s o slot c).issued]
    rw [held_unlink p hs.shaped hm] at hd
    split at hd
    · exact hi o slot d (List.mem_of_mem_erase hd)
    · exact hi p sl d hd
  · refine of_quiet (fun p sl d hd => ?_) (.invalidate _ o)
    rw [(samePlaces_link s o slot c).issued]
    rw [held_link hs.shaped ha] at hd
    split at hd
    · rcases List.mem_append.1 hd with hd | hd
      · split at hd
        · cases hd
        · exact hi o slot d hd
      · rw [List.mem_singleton.1 hd]
        exact .of_contains hl
    · exact hi p sl d hd

lemma collect (hi : s.HeldIssued) : s.collect.2.HeldIssued := by
  intro p slot c hc
  rw [held_collect] at hc
  split at hc
  · exact (hi p slot c hc).collect
  · cases hc

end HeldIssued

/-- At every time in a session every handle in a slot has been given out, whether its node is still there
or not. -/
theorem heldIssued_after (steps : List SessionStep) : (after steps).HeldIssued := by
  induction steps using List.reverseRecOn with
  | nil => exact .empty
  | append_singleton steps step ih =>
    rw [after_append]
    have hs := sound_after steps
    cases step with
    | operate op => exact ((op.changes hs).keep (fun _ _ hs hi h => hi.change hs h) hs ih).2
    | validate h => exact ih.of_quiet (.of_sameNodes (sameNodes_validate _ h))
    | collect => exact ih.collect

/-- Connections lead through slots, or stand in the content. -/
lemma Shaped.inSlot_or_references (hs : s.Shaped) {p c : NodeHandle} (h : s.Connects p c) :
    s.InSlot p c ∨ ∃ content, s.content? p = some content ∧ c ∈ content.references := by
  obtain ⟨e, he, rfl⟩ := h
  unfold edges at he
  cases hn : s.get? p with
  | none =>
    rw [hn] at he
    cases he
  | some n =>
    rw [hn, Option.map_some, Option.getD_some] at he
    rcases (hs p n hn).held_or_references he with ⟨slot, hc⟩ | hr
    · exact .inl ⟨slot, by rwa [held_of_get? hn]⟩
    · exact .inr ⟨n.content, by rw [content?, hn, Option.map_some], hr⟩

/-- What only issued handles lead to was there before, as no handle is given out twice. -/
lemma contains_of_reached (hdead : ∀ h, s.Spent h → t.Spent h) {R : NodeHandle → NodeHandle → Prop}
    (hissued : ∀ p c, s.contains p = true → R p c → s.Issued c)
    (hlive : ∀ p c, R p c → t.contains p = true) {a c : NodeHandle} (ha : s.contains a = true)
    (hc : ReflTransGen R a c) (hl : t.contains c = true) : s.contains c = true := by
  induction hc with
  | refl => exact ha
  | @tail b c _ hbc ih =>
    have hb := hissued b c (ih (hlive b c hbc)) hbc
    by_contra hn
    have hspent := hdead c ⟨hb, by simpa using hn⟩
    rw [hspent.dead] at hl
    cases hl

/-- What keeps all nodes adds none that they lead to. -/
lemma Keeps.untouched (hk : Keeps s t) (hs : s.Shaped) (hi : s.HeldIssued)
    (hdead : ∀ h, s.Spent h → t.Spent h) : Untouched s t := by
  have hslot : ∀ p c, s.contains p = true → t.InSlot p c → s.InSlot p c := by
    rintro p c hp ⟨slot, hc⟩
    obtain ⟨n, hn⟩ := contains_iff.1 hp
    obtain ⟨m, hm, e⟩ := hk p n hn
    rw [held_of_get? hm] at hc
    refine ⟨slot, ?_⟩
    rw [held_of_get? hn]
    exact congrArg (·.held slot) e ▸ hc
  have hconnects : ∀ p c, s.contains p = true → t.Connects p c → s.Connects p c := by
    rintro p c hp ⟨edge, hedge, hc⟩
    obtain ⟨n, hn⟩ := contains_iff.1 hp
    obtain ⟨m, hm, e⟩ := hk p n hn
    refine ⟨edge, ?_, hc⟩
    rw [edges, hm, Option.map_some, Option.getD_some] at hedge
    rw [edges, hn, Option.map_some, Option.getD_some]
    exact congrArg (·.edges) e ▸ hedge
  refine ⟨hk, fun a c ha hc hl => ?_, fun hg a c ha hc hl => ?_⟩
  · refine contains_of_reached hdead (fun p c hp h => ?_) (fun p c h => ?_) ha hc hl
    · obtain ⟨slot, hm⟩ := hslot p c hp h
      exact hi p slot c hm
    · obtain ⟨slot, hm⟩ := h
      exact contains_of_mem_held hm
  · refine contains_of_reached hdead (fun p c hp h => ?_) (fun p c h => ?_) ha hc hl
    · rcases hs.inSlot_or_references (hconnects p c hp h) with ⟨slot, hm⟩ | ⟨content, hcontent, hr⟩
      · exact hi p slot c hm
      · exact hg p content hcontent c hr
    · obtain ⟨edge, hedge, -⟩ := h
      rw [edges] at hedge
      cases hn : t.get? p with
      | none =>
        rw [hn] at hedge
        cases hedge
      | some n => exact contains_iff.2 ⟨n, hn⟩

end Store

/-! ## Operations -/

namespace Operation

variable {s : Store} {op : Operation} {fault : EditFault}

/-- A refused operation that does not break off leaves everything as it was. -/
lemma keeps_of_refused (hs : s.Sound) (ho : s.Sorted) (h : op.fault? s = some fault)
    (hn : ¬ op.BreaksOff s) : Keeps s (op.run s) := by
  have hcareful : ∀ {α : Type} {e : Edit α}, e.Careful → e.fault? s = some fault →
      Keeps s (e.apply s).2 := fun he hf => he s _ hs ho fault (fault?_eq_some hf)
  cases op with
  | createProject => exact hcareful careful_createProject h
  | createProjectDocument p name => exact hcareful (careful_createProjectDocument p name) h
  | createProjectOntology p name =>
    exact (createProjectPart_refused hs .ontologyTypesystems (by simp)
      (by simp [Content.listSlots]) rfl (fault?_eq_some h)).2 hn
  | createProjectTypesystem p name =>
    exact (createProjectPart_refused hs .typesystemIncludes (by simp)
      (by simp [Content.listSlots]) rfl (fault?_eq_some h)).2 hn
  | createTypesystem name => exact hcareful (.of_sure fun _ => ⟨_, _, rfl⟩) h
  | createSystemTypesystem => exact hcareful careful_createSystemTypesystem h
  | createType ts name shape => exact hcareful (careful_createIn ts _ name rfl) h
  | createEnumerationType ts name constants =>
    exact hcareful (careful_createIn ts .typesystemTypes name rfl) h
  | createArrayType ts inner => exact hcareful (careful_createArrayType ts inner) h
  | createStructType ts name => exact hcareful (careful_createIn ts _ name rfl) h
  | createAttribute struct name type substitute => exact hcareful (careful_createIn struct _ name rfl) h
  | setStructParent type parent => exact hcareful (careful_revise type _ _) h
  | addTypesystemInclude ts included => exact hcareful (careful_attach ts _ included) h
  | createOntology name => exact hcareful (.of_sure fun _ => ⟨_, _, rfl⟩) h
  | createClass o name cardinality superclass transparent root =>
    exact (createClass_refused hs ho (fault?_eq_some h)).2 hn
  | createAnnotationClass o name => exact hcareful (careful_createAnnotationClass o name) h
  | createField d type name optional primitiveType => exact hcareful (careful_createField _ _ _ _ _) h
  | addField d field => exact hcareful (careful_addField d field) h
  | moveField d field => exact hcareful (careful_moveField d field) h
  | addChildClass field k => exact hcareful (careful_addChildClass field k) h
  | setSuperclass k superclass =>
    obtain ⟨e, -⟩ := setSuperclass_refused hs ho (fault?_eq_some h)
    rw [Operation.run, e]
    exact .refl s
  | setCardinality k cardinality => exact hcareful (careful_revise k _ _) h
  | setTransparent k transparent => exact hcareful (careful_revise k _ _) h
  | setRoot k root => exact hcareful (careful_revise k _ _) h
  | setShortToken k token => exact hcareful (careful_revise k _ _) h
  | setStartToken k token => exact hcareful (careful_revise k _ _) h
  | setStopToken k token => exact hcareful (careful_revise k _ _) h
  | setFieldType field type => exact hcareful (careful_setFieldType field type) h
  | setFieldOptional field optional => exact hcareful (careful_revise field _ _) h
  | setFieldWhitespace field whitespace => exact hcareful (careful_revise field _ _) h
  | addOntologyDependency o dependency => exact hcareful (careful_attach o _ dependency) h
  | addOntologyTypesystem o ts => exact hcareful (careful_attach o _ ts) h
  | createDocument name => exact hcareful (.of_sure fun _ => ⟨_, _, rfl⟩) h
  | addDocumentOntology d o => exact hcareful (careful_attach d _ o) h
  | addDocumentTypesystem d ts => exact hcareful (careful_attach d _ ts) h
  | createRoot d descriptor attributes name => exact hcareful (careful_createRoot _ _ _ _) h
  | createChild parent descriptor attributes field name =>
    exact hcareful (careful_createChild _ _ _ _ _) h
  | createPrimitive parent v field => exact hcareful (careful_createPrimitive parent v field) h
  | createAnchor parent field => exact hcareful (careful_createAnchor parent field) h
  | createAnnotation d descriptor attributes start stop name =>
    exact (createAnnotation_refused hs (fault?_eq_some h)).2 hn
  | bindAnchor mark anchor which => exact hcareful (careful_bindAnchor mark anchor which) h
  | addStructureNode entity k number => exact hcareful (careful_addStructureNode entity k number) h
  | setAttributes entity attributes => exact hcareful (careful_revise entity _ _) h
  | _ => cases h

/-- A refused operation that breaks off leaves the new node with its owner. -/
lemma home?_of_breaksOff (hs : s.Sound) (ho : s.Sorted) (h : op.fault? s = some fault)
    (hb : op.BreaksOff s) : ∃ o slot, s.contains o = true ∧
      (op.run s).home? s.nextHandle = some ⟨o, slot⟩ := by
  cases op with
  | createProjectOntology p name =>
    obtain ⟨system, hp, -⟩ := id hb
    exact ⟨p, .projectOntologies, by rw [contains_eq, content?_of_systemTypesystem? hp]; rfl,
      (createProjectPart_refused hs .ontologyTypesystems (by simp)
        (by simp [Content.listSlots]) rfl (fault?_eq_some h)).1 hb⟩
  | createProjectTypesystem p name =>
    obtain ⟨system, hp, -⟩ := id hb
    exact ⟨p, .projectTypesystems, by rw [contains_eq, content?_of_systemTypesystem? hp]; rfl,
      (createProjectPart_refused hs .typesystemIncludes (by simp)
        (by simp [Content.listSlots]) rfl (fault?_eq_some h)).1 hb⟩
  | createClass o name cardinality superclass transparent root =>
    exact ⟨o, .ontologyClasses, contains_of_isA hb.1,
      (createClass_refused hs ho (fault?_eq_some h)).1 hb⟩
  | createAnnotation d descriptor attributes start stop name =>
    exact ⟨d, .documentAnnotations, contains_of_isA hb.1,
      (createAnnotation_refused hs (fault?_eq_some h)).1 hb⟩
  | _ => cases hb

end Operation

namespace Store

/-- An operation that is refused leaves everything untouched, unless it breaks off.  One that breaks off leaves
a new node in a slot of a node that was there before. -/
theorem untouched_of_refused (steps : List SessionStep) (op : Operation) (fault : EditFault)
    (h : op.fault? (after steps) = some fault) :
    (¬ op.BreaksOff (after steps) → Untouched (after steps) (op.run (after steps))) ∧
    (op.BreaksOff (after steps) → ∃ o slot, (after steps).contains o = true ∧
      (after steps).contains (after steps).nextHandle = false ∧
      (after steps).nextHandle ∈ (op.run (after steps)).held o slot) := by
  have hs := sound_after steps
  have ho := sorted_after steps
  have hi := heldIssued_after steps
  generalize after steps = s at *
  have hchanges := op.changes hs
  refine ⟨fun hn => ?_, fun hb => ?_⟩
  · have hkeeps := Operation.keeps_of_refused hs ho h hn
    exact hkeeps.untouched hs.shaped hi fun k hk => hk.changes hs hchanges
  · obtain ⟨o, slot, hl, hhome⟩ := Operation.home?_of_breaksOff hs ho h hb
    have hl' := hchanges.contains hs hl
    refine ⟨o, slot, hl, ?_, ((hs.changes hchanges).held_of_home hhome hl').2⟩
    rw [contains, get?_nextHandle hs.intact]
    rfl

/-- A root for an ontology, which has no place for one: the entity is there, and nothing leads to it. -/
theorem untouched_of_refused_createRoot :
    (Operation.createRoot ⟨1, 1⟩ ⟨2, 1⟩ none "").fault? (after (anchorSession [])) =
        some (.noSlot .ontology .documentRoot) ∧
      ((Operation.createRoot ⟨1, 1⟩ ⟨2, 1⟩ none "").run (after (anchorSession []))).isA ⟨11, 1⟩
        .structuredEntity = true ∧
      Untouched (after (anchorSession []))
        ((Operation.createRoot ⟨1, 1⟩ ⟨2, 1⟩ none "").run (after (anchorSession []))) := by
  have hfault : (Operation.createRoot ⟨1, 1⟩ ⟨2, 1⟩ none "").fault? (after (anchorSession [])) =
      some (.noSlot .ontology .documentRoot) := by decide +kernel
  exact ⟨hfault, by decide +kernel, (untouched_of_refused _ _ _ hfault).1 id⟩

/-- An annotation that starts at an entity is refused, and is among the annotations of the document after
that. -/
theorem not_untouched_createAnnotation :
    ( Operation.createAnnotation ⟨7, 1⟩ ⟨5, 1⟩ none (some ⟨8, 1⟩) none "").fault?
        (after (anchorSession [])) = some .endpointNotAnAnchor ∧
      ¬ Untouched (after (anchorSession []))
        (( Operation.createAnnotation ⟨7, 1⟩ ⟨5, 1⟩ none (some ⟨8, 1⟩) none "").run
          (after (anchorSession []))) := by
  refine ⟨by decide +kernel, fun h => ?_⟩
  have hnew : (after (anchorSession [])).contains ⟨11, 1⟩ = false := by decide +kernel
  have hheld := h.held ⟨7, 1⟩ ⟨11, 1⟩ (by decide +kernel)
    (.single ⟨.documentAnnotations, by decide +kernel⟩) (by decide +kernel)
  rw [hnew] at hheld
  cases hheld

end Store

end Semdoc
