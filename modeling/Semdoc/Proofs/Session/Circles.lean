import Semdoc.Proofs.Session.Collection
import Semdoc.Proofs.Session.Superclasses
import Semdoc.Proofs.Validation.Documents

/-!
# Circles of needs

What a node owns may need the node in turn, but in one way only: the node is a project, and owns an ontology from
which one comes to an ontology that has the project among its typesystems.
-/

namespace Semdoc

open Relation

/-! ## Superclasses are classes -/

namespace Store

variable {s t : Store}

/-- What a class names as its superclass is a class, or has been dropped. -/
def Named (s : Store) : Prop :=
  ∀ c p, s.superclass? c = some p → s.isA p .structuredClass = true ∨ s.Spent p

/-- Nodes stay of their kinds. -/
lemma Change.isA (h : Change s t) (hs : s.Sound) {k : NodeHandle} {type : TypeTag}
    (hk : s.isA k type = true) : t.isA k type = true := by
  have hof : SameContents s t → t.isA k type = true := fun h => (h.isA k type).trans hk
  cases h with
  | create name content he =>
    rw [isA_eq, content?_create hs.intact, if_neg (ne_nextHandle hs.intact (contains_of_isA hk)),
      ← isA_eq]
    exact hk
  | invalidate h => exact hof (.invalidate s h)
  | revise h f hf hc =>
    rw [isA_eq] at hk
    rw [isA_eq, content?_modify s h k f]
    split
    · next e =>
      subst e
      cases hn : s.get? k with
      | none =>
        rw [content?, hn] at hk
        cases hk
      | some n =>
        rw [content?, hn] at hk ⊢
        simpa [(hf n hn).tag] using hk
    · exact hk
  | sort h slot last hc => exact hof (.editRoster s h slot _)
  | remove o slot c => exact hof (.removeFrom s o slot c)
  | enter o slot c ha hl hfit hout => exact hof ((SameContents.link s o slot c).trans (.invalidate _ o))
  | rename h name => exact hof (.setName s h name)
  | locate h l => exact hof (.modify s h fun _ => rfl)
  | watch h => exact hof (.addWatcher s h)
  | unwatch number => exact hof (.removeWatcher s number)
  | root h =>
    refine hof ?_
    unfold addRoot
    split
    · exact .refl s
    · exact .of_cells rfl rfl
  | unroot h => exact hof (.of_cells rfl rfl)

lemma Changes.isA (h : Changes s t) (hs : s.Sound) {k : NodeHandle} {type : TypeTag}
    (hk : s.isA k type = true) : t.isA k type = true :=
  (h.keep (P := fun t => t.isA k type = true) (fun _ _ hs hk h => h.isA hs hk) hs hk).2

/-- A class that becomes a superclass is there. -/
lemma Named.changes (hn : s.Named) (hs : s.Sound) (h : Changes s t)
    (hsup : ∀ c p, t.superclass? c = some p →
      s.superclass? c = some p ∨ s.isA p .structuredClass = true) : t.Named := by
  have hp : ∀ p, s.isA p .structuredClass = true ∨ s.Spent p →
      t.isA p .structuredClass = true ∨ t.Spent p :=
    fun p hp => hp.imp (h.isA hs) fun hp => hp.changes hs h
  intro c p hcp
  exact hp p ((hsup c p hcp).elim (hn c p) .inl)

lemma Named.collect (hn : s.Named) : s.collect.2.Named := by
  intro c p hcp
  have hp : s.superclass? c = some p := by
    rw [superclass?_eq, content?_collect] at hcp
    split at hcp
    · rwa [superclass?_eq]
    · cases hcp
  rcases hn c p hp with hp | hp
  · by_cases hlive : p ∈ s.survivors
    · left
      rw [isA_eq, content?_collect, if_pos hlive, ← isA_eq]
      exact hp
    · exact .inr ⟨(Issued.of_contains (contains_of_isA hp)).collect, by
        rw [contains_collect, decide_eq_false hlive, Bool.false_and]⟩
  · exact .inr ⟨hp.issued.collect, by rw [contains_collect, hp.dead, Bool.and_false]⟩

end Store

namespace Edit

open Store

variable {α : Type}

lemma keepsNamed_of_within {e : Edit α} (hm : e.Makes) (he : e.Within sparingSuperclasses) :
    e.Keeps Named := by
  intro s hs ho hn
  refine hn.changes hs (hm s hs) fun c p hcp => .inl ?_
  rwa [(he s hs ho).superclass?_of_sparing] at hcp

lemma keepsNamed_createIn (o : NodeHandle) (slot : Slot) (name : String) {content : Content}
    (he : content.endpoints = []) (hk : content.tag.isA slot.kind = true)
    (hc : content.superclass? = none) : (createIn o slot name content).Keeps Named :=
  keepsNamed_of_within (makes_createIn he hk) (within_createIn o trivial name hc)

lemma keepsNamed_createAttributes (descriptor : NodeHandle) : (createAttributes descriptor).Keeps Named :=
  keepsNamed_createIn _ _ _ rfl (TypeTag.isA_self _) rfl

lemma keepsNamed_setSuperclass (h : NodeHandle) (superclass : Option NodeHandle) :
    (setSuperclass h superclass).Keeps Named := by
  intro s hs ho hn
  have hch := makes_setSuperclass h superclass s hs
  refine hn.changes hs hch fun k p hkp => ?_
  rcases setSuperclass_cases h superclass s with ⟨fault, e⟩ | ⟨c, hc, hsup, e⟩
  · rw [e] at hkp
    exact .inl hkp
  · rw [e] at hkp
    split at hkp
    · exact .inl hkp
    · obtain ⟨t, e', hr⟩ := changeSuperclass_reclasses hs ho hc hsup
      rw [e', hr.superclass?] at hkp
      split at hkp
      · exact .inr (hsup p hkp)
      · exact .inl hkp

lemma keepsNamed_createClass (o : NodeHandle) (name : String) (cardinality : RangeSet)
    (superclass : Option NodeHandle) (transparent root : Bool) :
    (createClass o name cardinality superclass transparent root).Keeps Named :=
  keeps_createClass o name cardinality superclass transparent root
    (keepsNamed_createIn _ _ _ rfl (TypeTag.isA_self _) rfl) keepsNamed_createAttributes
    fun h => keepsNamed_setSuperclass h superclass

lemma keepsNamed_createAnnotationClass (o : NodeHandle) (name : String) :
    (createAnnotationClass o name).Keeps Named :=
  .bind (makes_createIn rfl (TypeTag.isA_self _))
    (keepsNamed_createIn _ _ _ rfl (TypeTag.isA_self _) rfl) fun h =>
      .bind (makes_createAttributes h) (keepsNamed_createAttributes h) fun _ => .pure h

lemma keepsNamed_setStructParent (type : NodeHandle) (parent : Option NodeHandle) :
    (setStructParent type parent).Keeps Named :=
  keepsNamed_of_within (makes_setStructParent type parent) (within_setStructParent type parent fun _ => rfl)

end Edit

namespace Store

variable {s : Store}

lemma Named.operation (hn : s.Named) (hs : s.Sound) (ho : s.Sorted) (op : Operation) :
    (op.run s).Named := by
  cases hkin : op.sparesKin with
  | true =>
    refine hn.changes hs (op.changes hs) fun c p hcp => .inl ?_
    rwa [(Operation.within_sparingKin hs ho hkin).superclass?] at hcp
  | false =>
    cases op with
    | createClass o name cardinality superclass transparent root =>
      exact Edit.keepsNamed_createClass o name cardinality superclass transparent root s hs ho hn
    | createAnnotationClass o name => exact Edit.keepsNamed_createAnnotationClass o name s hs ho hn
    | setSuperclass h superclass => exact Edit.keepsNamed_setSuperclass h superclass s hs ho hn
    | setStructParent type parent => exact Edit.keepsNamed_setStructParent type parent s hs ho hn
    | _ => cases hkin

/-- At every time in a session superclasses are classes, unless they have been dropped. -/
theorem named_after (steps : List SessionStep) : (after steps).Named := by
  induction steps using List.reverseRecOn with
  | nil =>
    intro c p hcp
    rw [superclass?_eq, content?, show after [] = {} from rfl, get?_empty] at hcp
    cases hcp
  | append_singleton steps step ih =>
    rw [after_append]
    cases step with
    | operate op => exact ih.operation (sound_after steps) (sorted_after steps) op
    | validate h =>
      have hm := sameNodes_validate (after steps) h
      have hsame := SameContents.of_sameNodes hm
      intro c p hcp
      have hp : (after steps).superclass? c = some p := by
        rw [superclass?_eq] at hcp ⊢
        exact (hsame.content? c) ▸ hcp
      exact (ih c p hp).imp (fun hp => (hsame.isA p _).trans hp)
        fun hp => ⟨(hm.issued p).2 hp.issued, (hm.contains p).trans hp.dead⟩
    | collect => exact ih.collect

end Store

/-! ## What owns projects, ontologies and classes -/

/-- Projects are owned by nothing. -/
lemma Slot.not_kind_project (slot : Slot) : TypeTag.project.isA slot.kind = false := by
  cases slot <;> dsimp only [kind] <;> decide +kernel

namespace Store

variable {s : Store} {x y : NodeHandle}

/-- A slot that holds something is one of its node. -/
lemma Shaped.mem_listSlots (hs : s.Shaped) {slot : Slot} (hsingle : slot.isSingle = false)
    (hfield : slot.isField = false) (hc : y ∈ s.held x slot) :
    ∃ c, s.content? x = some c ∧ slot ∈ c.listSlots := by
  obtain ⟨n, hn⟩ := contains_iff.1 (contains_of_mem_held hc)
  rw [held_of_get? hn] at hc
  exact (accepts_iff_content? hs hsingle hfield x).1 ⟨n, hn, Node.accepts_of_mem_held hc⟩

/-- What is owned is of the kind that its slot asks for. -/
lemma Sorted.kind_of_owns (ho : s.Sorted) (hs : s.Sound) (h : s.Owns x y) {d : Content}
    (hd : s.content? y = some d) :
    ∃ slot, y ∈ s.held x slot ∧ d.tag.isA slot.kind = true := by
  obtain ⟨slot, hslot, hy⟩ := h
  have hhome := hs.home_of_held hslot hy
  exact ⟨slot, hy, ho.kind_of_home hs hhome (contains_of_mem_held hy) hd⟩

/-- A node is a project or an ontology. -/
def Presides (s : Store) (x : NodeHandle) : Prop :=
  (∃ system, s.content? x = some (.project system)) ∨ s.content? x = some .ontology

/-- Only projects own ontologies. -/
lemma Shaped.exists_project (hs : s.Shaped) (h : y ∈ s.held x .projectOntologies) :
    ∃ system, s.content? x = some (.project system) := by
  obtain ⟨c, hc, hmem⟩ := hs.mem_listSlots rfl rfl h
  cases c with
  | project system => exact ⟨system, hc⟩
  | type shape => cases shape <;> simp [Content.listSlots] at hmem
  | _ => simp [Content.listSlots] at hmem

section Owned

variable (hs : s.Sound) (ho : s.Sorted)
include hs ho

lemma not_project_of_owned (h : s.Owns x y) (system : Option NodeHandle) :
    s.content? y ≠ some (.project system) := by
  intro hy
  obtain ⟨slot, -, hkind⟩ := ho.kind_of_owns hs h hy
  rw [show (Content.project system).tag = .project from rfl, slot.not_kind_project] at hkind
  cases hkind

lemma held_of_owns_ontology (h : s.Owns x y) (hy : s.content? y = some .ontology) :
    y ∈ s.held x .projectOntologies := by
  obtain ⟨slot, hm, hkind⟩ := ho.kind_of_owns hs h hy
  obtain rfl : slot = .projectOntologies := Slot.eq_of_kind (by simp) hkind
  exact hm

lemma ontology_of_owns_class (h : s.Owns x y) {c : ClassContent}
    (hy : s.content? y = some (.structuredClass c)) : s.content? x = some .ontology := by
  obtain ⟨slot, hm, hkind⟩ := ho.kind_of_owns hs h hy
  obtain rfl : slot = .ontologyClasses := Slot.eq_of_kind (by simp) hkind
  obtain ⟨c, hc, hmem⟩ := hs.shaped.mem_listSlots rfl rfl hm
  cases c with
  | ontology => exact hc
  | type shape => cases shape <;> simp [Content.listSlots] at hmem
  | _ => simp [Content.listSlots] at hmem

end Owned

/-! ## What needs what -/

/-- A node needs what it owns, the typesystems of an ontology and the superclass of a class. -/
lemma Shaped.needs_cases (hs : s.Shaped) (h : s.Needs x y) :
    s.contains y = true ∧ (s.Owns x y ∨
      s.content? x = some .ontology ∧ y ∈ s.listed x .ontologyTypesystems ∨
      (∃ c, s.content? x = some (.structuredClass c)) ∧ s.superclass? x = some y) := by
  unfold Needs needs at h
  cases hn : s.get? x with
  | none =>
    rw [hn] at h
    cases h
  | some n =>
    rw [hn, Option.map_some, Option.getD_some, neededBy, List.mem_filter] at h
    obtain ⟨hm, hl⟩ := h
    have hcontent : s.content? x = some n.content := by rw [content?, hn, Option.map_some]
    refine ⟨hl, ?_⟩
    rcases List.mem_append.1 hm with hm | hm
    · right
      unfold restsOn at hm
      cases hc : n.content with
      | ontology =>
        rw [hc] at hm hcontent
        refine .inl ⟨hcontent, ?_⟩
        rw [listed, hn]
        exact hm
      | structuredClass c =>
        rw [hc] at hm hcontent
        refine .inr ⟨⟨c, hcontent⟩, ?_⟩
        rw [superclass?_eq, hcontent]
        dsimp only at hm
        split at hm
        · cases hm
        · exact Option.mem_toList.1 hm
      | _ =>
        rw [hc] at hm
        cases hm
    · obtain ⟨slot, hslot, hy⟩ := (hs x n hn).mem_owned_iff.1 hm
      exact .inl ⟨slot, hslot, by rwa [held_of_get? hn]⟩

/-- A superclass that is there is a class. -/
lemma Named.exists_class (hn : s.Named) (h : s.superclass? x = some y) (hl : s.contains y = true) :
    ∃ c, s.content? y = some (.structuredClass c) := by
  rcases hn x y h with hclass | hspent
  · obtain ⟨c, hc⟩ := Option.isSome_iff_exists.1 (isSome_class?_iff.2 hclass)
    exact ⟨c, content?_of_class? hc⟩
  · rw [hspent.dead] at hl
    cases hl

section Needed

variable (hs : s.Sound) (ho : s.Sorted) (hn : s.Named)
include hs ho hn

/-- Only projects and ontologies need projects and ontologies. -/
lemma presides_of_needs (h : s.Needs x y) (hy : s.Presides y) : s.Presides x := by
  obtain ⟨hl, hown | ⟨hx, -⟩ | ⟨-, hsup⟩⟩ := hs.shaped.needs_cases h
  · rcases hy with ⟨system, hy⟩ | hy
    · exact (not_project_of_owned hs ho hown system hy).elim
    · exact .inl (hs.shaped.exists_project (held_of_owns_ontology hs ho hown hy))
  · exact .inr hx
  · obtain ⟨c, hc⟩ := hn.exists_class hsup hl
    rcases hy with ⟨system, hy⟩ | hy <;> rw [hc] at hy <;> cases hy

lemma presides_of_leadsTo (h : ReflTransGen s.LeadsTo x y) (hy : s.Presides y) : s.Presides x := by
  induction h using ReflTransGen.head_induction_on with
  | refl => exact hy
  | head h _ ih => exact presides_of_needs hs ho hn h.1 ih

end Needed

/-- A node is neither a project nor an ontology nor a class. -/
def Serves (s : Store) (x : NodeHandle) : Prop :=
  ¬ s.Presides x ∧ ∀ c, s.content? x ≠ some (.structuredClass c)

section Circle

variable (hs : s.Sound) (ho : s.Sorted)
include hs ho

lemma serves_of_owns (h : s.Owns x y) (hx : ¬ s.Presides x) : s.Serves y := by
  refine ⟨?_, fun c hy => hx (.inr (ontology_of_owns_class hs ho h hy))⟩
  rintro (⟨system, hy⟩ | hy)
  · exact not_project_of_owned hs ho h system hy
  · exact hx (.inl (hs.shaped.exists_project (held_of_owns_ontology hs ho h hy)))

/-- Other nodes need only what they own. -/
lemma owns_of_serves (hx : s.Serves x) (h : ReflTransGen s.LeadsTo x y) :
    s.Serves y ∧ ReflTransGen s.IsParent x y := by
  induction h with
  | refl => exact ⟨hx, .refl⟩
  | tail _ h ih =>
    obtain ⟨hserves, hup⟩ := ih
    obtain ⟨-, hown | ⟨hc, -⟩ | ⟨⟨c, hc⟩, -⟩⟩ := hs.shaped.needs_cases h.1
    · exact ⟨serves_of_owns hs ho hown hserves.1, hup.tail (hs.isParent_of_owns hown)⟩
    · exact (hserves.1 (.inr hc)).elim
    · exact (hserves.2 c hc).elim

/-- What a node owns leads back to it only from an ontology of a project to an ontology that has the project among its
typesystems. -/
theorem ontology_of_circle (hn : s.Named) (hown : s.Owns x y) (hback : TransGen s.LeadsTo y x) :
    y ∈ s.listed x .projectOntologies ∧
      ∃ o, ReflTransGen s.LeadsTo y o ∧ x ∈ s.listed o .ontologyTypesystems := by
  by_cases hx : s.Presides x
  · -- then what it owns presides as well, and so it is an ontology
    have hy : s.Presides y := presides_of_leadsTo hs ho hn hback.to_reflTransGen hx
    obtain hy := hy.resolve_left fun ⟨system, hy⟩ => not_project_of_owned hs ho hown system hy
    have hm := held_of_owns_ontology hs ho hown hy
    obtain ⟨system, hproject⟩ := hs.shaped.exists_project hm
    obtain ⟨o, hyo, hox⟩ := TransGen.tail'_iff.1 hback
    refine ⟨by rwa [listed_eq_held x rfl], o, hyo, ?_⟩
    -- a project is neither owned nor a superclass
    obtain ⟨hl, h | ⟨-, h⟩ | ⟨-, h⟩⟩ := hs.shaped.needs_cases hox.1
    · exact (not_project_of_owned hs ho h system hproject).elim
    · exact h
    · obtain ⟨c, hc⟩ := hn.exists_class h hl
      rw [hproject] at hc
      cases hc
  · -- otherwise all of the way back is owned, and the node owns itself
    have hserves := serves_of_owns hs ho hown hx
    have hup := (owns_of_serves hs ho hserves hback.to_reflTransGen).2
    exact (not_transGen_self hs.acyclic x (.head' (hs.isParent_of_owns hown) hup)).elim

end Circle

end Store

end Semdoc
