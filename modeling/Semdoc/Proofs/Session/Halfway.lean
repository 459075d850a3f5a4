import Semdoc.Proofs.Session.Caution

/-!
# Edits that break off

Creating a class, an annotation, or an ontology or a typesystem of a project puts the new node in its place
before it comes to something else that may be refused, and does not take the node away again.  When that
happens is told by the arguments and the store before; at all other times nothing is left behind.
-/

namespace Semdoc

open Edit Store

/-- An operation puts a new node in its place and then comes to something that it refuses: a superclass
that is no class, an endpoint that is no anchor, or a typesystem of the basic types that has been
dropped. -/
def Operation.BreaksOff (s : Store) : Operation → Prop
  | createClass o _ _ superclass _ _ =>
    s.isA o .ontology = true ∧ ∃ sup, superclass = some sup ∧ s.isA sup .structuredClass = false
  | createAnnotation d c _ start stop _ =>
    s.isA d .document = true ∧ s.isA c .annotationClass = true ∧
      ∃ x, (start = some x ∨ stop = some x) ∧ s.isA x .anchor = false
  | createProjectOntology p _ | createProjectTypesystem p _ =>
    ∃ system, s.systemTypesystem? p = some system ∧ s.contains system = false
  | _ => False

namespace Store

variable {s t : Store}

/-! ## New nodes that stay -/

lemma Sound.place (hs : s.Sound) {o c : NodeHandle} {slot : Slot}
    (h : s.attachFault? o slot c = none) : (s.place o slot c).Sound := by
  obtain ⟨t, ht, -, hts, ha, hc, hout⟩ := hs.exists_link h
  rw [place_eq, ← ht]
  exact (hts.link ha hc hout).invalidate o

lemma Sound.grown (hs : s.Sound) {o : NodeHandle} {slot : Slot} (hslot : slot.isComposition = true)
    (ha : s.Accepts o slot) (name : String) (content : Content) :
    (s.grown o slot name content).Sound :=
  (hs.create name content).place ((attachFault?_create hs hslot name content).2 ha)

lemma contains_grown (hs : s.Intact) {k : NodeHandle} (hk : s.contains k = true) (o : NodeHandle)
    (slot : Slot) (name : String) (content : Content) :
    (s.grown o slot name content).contains k = true := by
  rw [contains_eq, content?_grown hs, if_neg (ne_nextHandle hs hk), ← contains_eq]
  exact hk

lemma content?_of_systemTypesystem? {p system : NodeHandle}
    (h : s.systemTypesystem? p = some system) : s.content? p = some (.project (some system)) := by
  unfold systemTypesystem? at h
  split at h
  · next hc => rw [hc, h]
  · cases h

/-- The class of a node is enough to see that attributes can be put into it. -/
lemma accepts_descriptorAttributes {d : NodeHandle} {c : Content} (hc : s.content? d = some c)
    (hslot : c.singleSlot? = some .descriptorAttributes) : s.Accepts d .descriptorAttributes := by
  obtain ⟨n, hn, rfl⟩ := Option.map_eq_some_iff.1 hc
  exact ⟨n, hn, by simp [Node.accepts, Slot.isSingle, hslot]⟩

lemma home?_modify_content (s : Store) (h k : NodeHandle) (f : Content → Content) :
    (s.modify h fun n => { n with content := f n.content }).home? k = s.home? k := by
  rw [home?_modify]
  split
  · next e => rw [e, home?]
  · rfl

lemma home?_reanchored (s : Store) (x : NodeHandle) (mark : Option NodeHandle) (k : NodeHandle) :
    (s.reanchored x mark).home? k = s.home? k := by
  rw [reanchored, home?_modify_content, (SameNodes.invalidate s x).home?]

/-- Binding an anchor moves no node. -/
lemma home?_tied (s : Store) (b : Binding) (k : NodeHandle) : (s.tied b).home? k = s.home? k := by
  have hr : (s.repointed b).home? k = s.home? k := by
    rw [repointed, home?_modify_content, (SameNodes.invalidate s b.mark).home?]
  rw [tied, home?_reanchored]
  cases (s.endpoint? b.mark b.which).filter (· ≠ b.anchor) with
  | none => exact hr
  | some p => exact (home?_reanchored _ p none k).trans hr

end Store

namespace Edit

variable {s t : Store} {fault : EditFault}

lemma createAttributes_apply (hs : s.Sound) {d : NodeHandle} {c : Content}
    (hc : s.content? d = some c) (hslot : c.singleSlot? = some .descriptorAttributes) :
    (createAttributes d).apply s =
      (.ok s.nextHandle, s.grown d .descriptorAttributes "" (.type (.struct none))) :=
  createIn_of_accepts hs rfl (accepts_descriptorAttributes hc hslot) _ _

/-- The attributes of a new annotation class can always be created. -/
lemma careful_createAnnotationClass (ontology : NodeHandle) (name : String) :
    (createAnnotationClass ontology name).Careful := by
  intro s t hs _ fault e
  unfold createAnnotationClass at e
  rw [apply_bind] at e
  rcases createIn_cases hs ontology .ontologyAnnotationClasses rfl name
    (.annotationClass {}) with ⟨ha, h⟩ | ⟨-, x, h⟩
  · rw [h] at e
    dsimp only at e
    rw [apply_bind, createAttributes_apply (hs.grown rfl ha _ _)
      ((content?_grown hs.intact _ _ _ _ _).trans (if_pos rfl)) rfl] at e
    cases e
  · rw [h] at e
    cases e
    exact .create hs.intact name _

/-- A new class gets its attributes; a superclass that is no class is refused only after that. -/
lemma finishClass_refused (hs : s.Sound) (ho : s.Sorted) {h : NodeHandle} {c : ClassContent}
    (hc : s.content? h = some (.structuredClass c)) {home : Home} (hhome : s.home? h = some home)
    (hslot : home.slot ≠ .descriptorAttributes) {superclass : Option NodeHandle}
    (e : (createAttributes h >>= fun _ =>
      if superclass.isSome then setSuperclass h superclass >>= fun _ => pure h
      else pure h : Edit NodeHandle).apply s = (.error fault, t)) :
    (∃ sup, superclass = some sup ∧ s.isA sup .structuredClass = false) ∧
      t.home? h = some home := by
  have ha := accepts_descriptorAttributes hc rfl
  have hgrown := hs.grown rfl ha "" (.type (.struct none))
  have hsorted := ho.changes hs (makes_createAttributes h s hs)
  rw [createAttributes_apply hs hc rfl] at hsorted
  rw [apply_bind, createAttributes_apply hs hc rfl] at e
  cases superclass with
  | none => cases e
  | some sup =>
    dsimp only at e
    rw [if_pos (by rfl), apply_bind] at e
    split at e
    · cases e
    · next x u hu =>
      cases e
      obtain ⟨rfl, hn⟩ := setSuperclass_refused hgrown hsorted hu
      refine ⟨⟨sup, rfl, ?_⟩, home?_grown_of_home? hs ha rfl _ _ hhome hslot⟩
      rw [← Bool.not_eq_true]
      refine fun hsup => hn fun k hk => isA_grown_of_isA hs.intact ?_ _ _ _ _
      rcases List.mem_cons.1 hk with rfl | hk
      · exact (isA_iff_content? (by decide)).2 ⟨_, hc, rfl⟩
      · rw [← Option.some.inj (Option.mem_toList.1 hk)]
        exact hsup

/-- A class that is refused has been put into its ontology if the ontology is one; the superclass is to
blame then. -/
lemma createClass_refused (hs : s.Sound) (ho : s.Sorted) {o : NodeHandle} {name : String}
    {cardinality : RangeSet} {superclass : Option NodeHandle} {transparent root : Bool}
    (e : (createClass o name cardinality superclass transparent root).apply s = (.error fault, t)) :
    ((Operation.createClass o name cardinality superclass transparent root).BreaksOff s →
      t.home? s.nextHandle = some ⟨o, .ontologyClasses⟩) ∧
    (¬ (Operation.createClass o name cardinality superclass transparent root).BreaksOff s →
      Keeps s t) := by
  have hont := accepts_ontologyClasses hs.shaped o
  unfold createClass at e
  rw [apply_bind] at e
  generalize hc : Content.structuredClass { cardinality, transparent, root } = content at e
  have hmakes : (createIn o .ontologyClasses name content).Makes := by
    rw [← hc]
    exact makes_createIn rfl (TypeTag.isA_self _)
  rcases createIn_cases hs o .ontologyClasses rfl name content with
    ⟨ha, h⟩ | ⟨hn, x, h⟩
  · have hsorted := ho.changes hs (hmakes s hs)
    have hcontent := content?_grown hs.intact o .ontologyClasses name content s.nextHandle
    have hhome := home?_grown hs.intact o .ontologyClasses rfl name content s.nextHandle
    rw [h] at e hsorted
    rw [if_pos rfl] at hcontent hhome
    obtain ⟨⟨sup, rfl, hsup⟩, hhome'⟩ := finishClass_refused (hs.grown rfl ha name content) hsorted
      (hcontent.trans (by rw [← hc])) hhome nofun e
    refine ⟨fun _ => hhome', fun hn => (hn ⟨hont.1 ha, sup, rfl, ?_⟩).elim⟩
    rw [← Bool.not_eq_true]
    intro hs'
    rw [isA_grown_of_isA hs.intact hs'] at hsup
    cases hsup
  · rw [h] at e
    cases e
    exact ⟨fun hb => (hn (hont.2 hb.1)).elim, fun _ => .create hs.intact name _⟩

/-- The endpoints of a new annotation are bound up to one that is no anchor. -/
lemma bindEnds_refused {h : NodeHandle} (hh : s.isA h .annotationEntity = true)
    {start stop : Option NodeHandle}
    (e : (do
      if let some anchor := start then bindAnchor h anchor .start
      if let some anchor := stop then bindAnchor h anchor .stop
      return h : Edit NodeHandle).apply s = (.error fault, t)) :
    (∃ x, (start = some x ∨ stop = some x) ∧ s.isA x .anchor = false) ∧
      ∀ k, t.home? k = s.home? k := by
  have hstop : ∀ {u : Store} {y : NodeHandle}, u.isA h .annotationEntity = true →
      (bindAnchor h y .stop >>= fun _ => pure h).apply u = (.error fault, t) →
      u.isA y .anchor = false ∧ t = u := by
    intro u y hu e
    rw [apply_bind, bindAnchor_of_isA hu] at e
    cases hy : u.isA y .anchor with
    | true =>
      rw [hy] at e
      cases e
    | false =>
      rw [hy] at e
      cases e
      exact ⟨rfl, rfl⟩
  cases start with
  | none =>
    cases stop with
    | none => cases e
    | some y =>
      obtain ⟨hy, rfl⟩ := hstop hh e
      exact ⟨⟨y, .inr rfl, hy⟩, fun _ => rfl⟩
  | some x =>
    dsimp only at e
    rw [apply_bind, bindAnchor_of_isA hh] at e
    cases hx : s.isA x .anchor with
    | false =>
      rw [hx] at e
      cases e
      exact ⟨⟨x, .inl rfl, hx⟩, fun _ => rfl⟩
    | true =>
      rw [hx] at e
      cases stop with
      | none => cases e
      | some y =>
        have hh' : (s.tied ⟨h, x, .start⟩).isA h .annotationEntity = true := by rwa [isA_tied]
        obtain ⟨hy, rfl⟩ := hstop hh' e
        rw [isA_tied] at hy
        exact ⟨⟨y, .inr rfl, hy⟩, home?_tied s _⟩

/-- An annotation that is refused has been put into its document if the document is one and the class is
one; an endpoint is to blame then. -/
lemma createAnnotation_refused (hs : s.Sound) {d c : NodeHandle}
    {attributes : Option Value} {start stop : Option NodeHandle} {name : String}
    (e : ( createAnnotation d c attributes start stop name).apply s = (.error fault, t)) :
    (( Operation.createAnnotation d c attributes start stop name).BreaksOff s →
      t.home? s.nextHandle = some ⟨d, .documentAnnotations⟩) ∧
    (¬ ( Operation.createAnnotation d c attributes start stop name).BreaksOff s → Keeps s t) := by
  have hdoc := accepts_documentAnnotations hs.shaped d
  unfold createAnnotation at e
  rw [get_bind_apply] at e
  cases hc : s.isA c .annotationClass with
  | false =>
    rw [hc] at e
    cases e
    refine ⟨fun hb => ?_, fun _ => .refl s⟩
    rw [hb.2.1] at hc
    cases hc
  | true =>
    rw [hc] at e
    simp only [Bool.not_true, Bool.false_eq_true, if_false] at e
    rw [apply_bind] at e
    rcases createIn_cases hs d .documentAnnotations rfl name (.annotationEntity
      { descriptor := c, attributes := attributes.getD (.map []) } none none) with
      ⟨ha, h⟩ | ⟨hn, x, h⟩
    · rw [h] at e
      have hmark := isA_grown hs.intact d .documentAnnotations name (.annotationEntity
        { descriptor := c, attributes := attributes.getD (.map []) } none none) s.nextHandle
        .annotationEntity
      have hhome := home?_grown hs.intact d .documentAnnotations rfl name
        (.annotationEntity { descriptor := c, attributes := attributes.getD (.map []) } none none)
        s.nextHandle
      rw [if_pos rfl] at hmark hhome
      obtain ⟨⟨x, hx, hanchor⟩, hhomes⟩ :=
        bindEnds_refused (hmark.trans (TypeTag.isA_self _)) e
      refine ⟨fun _ => (hhomes _).trans hhome, fun hn => (hn ⟨hdoc.1 ha, hc, x, hx, ?_⟩).elim⟩
      rw [← Bool.not_eq_true]
      intro hx'
      rw [isA_grown_of_isA hs.intact hx'] at hanchor
      cases hanchor
    · rw [h] at e
      cases e
      exact ⟨fun hb => (hn (hdoc.2 hb.1)).elim, fun _ => .create hs.intact name _⟩

/-- The typesystem of the basic types is refused only if it has been dropped. -/
lemma attachSystem_refused {p h : NodeHandle} {slot : Slot} (hslot : slot.isComposition = false)
    (ha : s.Accepts h slot)
    (e : (do
      if let some system := (← get).systemTypesystem? p then attach h slot system
      return h : Edit NodeHandle).apply s = (.error fault, t)) :
    t = s ∧ ∃ system, s.systemTypesystem? p = some system ∧ s.contains system = false := by
  rw [get_bind_apply] at e
  cases hp : s.systemTypesystem? p with
  | none =>
    rw [hp] at e
    cases e
  | some system =>
    rw [hp] at e
    dsimp only at e
    rw [apply_bind, attach_apply] at e
    cases hl : s.contains system with
    | true =>
      rw [attachFault?_of_reference hslot ha hl] at e
      cases e
    | false =>
      split at e
      · cases e
      · next x u hu =>
        split at hu
        · cases hu
          cases e
          exact ⟨rfl, system, rfl, hl⟩
        · cases hu

/-- An ontology or a typesystem that is refused has been put into its project if the project is one; the
typesystem of the basic types is to blame then. -/
lemma createProjectPart_refused (hs : s.Sound) {p : NodeHandle} {slot : Slot} (sl : Slot)
    {name : String} {content : Content} (hslot : slot ∈ [Slot.projectOntologies, .projectTypesystems])
    (hsl : sl ∈ content.listSlots) (hrefers : sl.isComposition = false)
    (e : (do
      let h ← create name content
      attach p slot h
      if let some system := (← get).systemTypesystem? p then attach h sl system
      return h : Edit NodeHandle).apply s = (.error fault, t)) :
    ((∃ system, s.systemTypesystem? p = some system ∧ s.contains system = false) →
      t.home? s.nextHandle = some ⟨p, slot⟩) ∧
    ((¬ ∃ system, s.systemTypesystem? p = some system ∧ s.contains system = false) →
      Keeps s t) := by
  have hcomp : slot.isComposition = true ∧ slot.isSingle = false ∧ slot.isField = false ∧
      ∀ system, slot ∈ (Content.project system).listSlots := by
    simp only [List.mem_cons, List.not_mem_nil, or_false] at hslot
    rcases hslot with rfl | rfl <;> simp [Slot.isComposition, Slot.isSingle, Slot.isField,
      Content.listSlots]
  obtain ⟨hcomp, hsingle, hfield, hproject⟩ := hcomp
  have hiff := attachFault?_create hs (o := p) hcomp name content
  rw [apply_bind, create_apply] at e
  dsimp only at e
  rw [apply_bind, attach_apply] at e
  cases hf : (s.create name content).2.attachFault? p slot s.nextHandle with
  | some x =>
    rw [hf] at e
    cases e
    refine ⟨?_, fun _ => .create hs.intact name content⟩
    rintro ⟨system, hp, -⟩
    have ha := (accepts_iff_content? hs.shaped hsingle hfield p).2
      ⟨_, content?_of_systemTypesystem? hp, hproject _⟩
    rw [hiff.2 ha] at hf
    cases hf
  | none =>
    rw [hf] at e
    have ha := hiff.1 hf
    have hgrown := hs.grown hcomp ha name content
    have hp : p ≠ s.nextHandle := by
      obtain ⟨n, hn, -⟩ := ha
      exact ne_nextHandle hs.intact (contains_iff.2 ⟨n, hn⟩)
    have hsl' : (s.grown p slot name content).Accepts s.nextHandle sl := by
      have hcontent := content?_grown hs.intact p slot name content s.nextHandle
      rw [if_pos rfl] at hcontent
      have hsl' : sl.isField = false := by
        by_contra hf
        rw [Slot.isComposition_of_isField (Bool.not_eq_false _ ▸ hf)] at hrefers
        cases hrefers
      exact (accepts_iff_content? hgrown.shaped (Content.isSingle_of_mem_listSlots hsl) hsl' _).2
        ⟨content, hcontent, hsl⟩
    obtain ⟨rfl, system, hsystem, hl⟩ := attachSystem_refused hrefers hsl' e
    have hhome := home?_grown hs.intact p slot hcomp name content s.nextHandle
    rw [if_pos rfl] at hhome
    refine ⟨fun _ => hhome, fun hn => (hn ⟨system, ?_, ?_⟩).elim⟩
    · change (s.grown p slot name content).systemTypesystem? p = some system at hsystem
      rwa [systemTypesystem?, content?_grown hs.intact, if_neg hp, ← systemTypesystem?] at hsystem
    · rw [← Bool.not_eq_true]
      intro hl'
      change (s.grown p slot name content).contains system = false at hl
      rw [contains_grown hs.intact hl'] at hl
      cases hl

end Edit

end Semdoc
