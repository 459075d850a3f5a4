import Semdoc.Proofs.Document.Places

/-!
# Valid documents

A document that is found valid follows its schema, with all that it owns: it has a root, its entities
are filled as their classes say, its annotations reach from an anchor to a later one, and its anchors
are their endpoints.
-/

namespace Semdoc

@[simp] lemma Check.value_demand (ok : Bool) (text : String) (l : Location) :
    (Check.demand ok text l).value = ok := by
  cases ok <;> rfl

@[simp] lemma Check.value_all (cs : List Check) : (Check.all cs).value = cs.all (·.value) := by
  induction cs with
  | nil => rfl
  | cons c r ih => rw [Check.all, Logged.value_bind, Logged.value_bind, ih]; rfl

namespace Store

open Relation

/-! ## The schema -/

/-- The content of a field apart from anchors. -/
def filling (s : Store) (h : NodeHandle) (number : Nat) : List NodeHandle :=
  (s.fieldContent h number).filter fun c => !s.isA c .anchor

/-- A single value that a type accepts, or nothing if that is allowed. -/
def IsValue (s : Store) (optional : Bool) (type : NodeHandle) (content : List NodeHandle) : Prop :=
  (∃ c v, content = [c] ∧ s.primitive? c = some v ∧ (s.prepare type v).value.ok = true) ∨
    content = [] ∧ optional = true

/-- Entities of declared classes or of subclasses of them, as many of each class as its cardinality
admits, or nothing if that is allowed. -/
structure AreEntities (s : Store) (optional : Bool) (declared content : List NodeHandle) : Prop where
  member : ∀ c ∈ content, ∃ e, s.content? c = some (.structuredEntity e) ∧
    ∃ d ∈ declared, s.isSubclassOf e.descriptor d = true
  count : content = [] ∧ optional = true ∨ ∀ d ∈ declared, ∀ c, s.class? d = some c →
    c.cardinality.contains (UInt64.ofNat (s.countOf d content)) = true

/-- A field has a content of its kind. -/
def FillsField (s : Store) (field : NodeHandle) (f : FieldContent) (content : List NodeHandle) :
    Prop :=
  match f.primitiveType with
  | some type => s.IsValue f.optional type content
  | none => s.AreEntities f.optional (s.declaredChildren field) content

/-- The attributes and fields of an entity are as its class says. -/
structure FollowsClass (s : Store) (h : NodeHandle) (e : EntityContent) : Prop where
  attributes : ∀ type, s.attributesOf? e.descriptor = some type →
    (s.prepare type e.attributes).value.ok = true
  field : ∀ number field, (s.effectiveFields e.descriptor)[number]? = some field →
    ∃ f, s.field? field = some f ∧ s.FillsField field f (s.filling h number)
  beyond : ∀ number, (s.effectiveFields e.descriptor).length ≤ number → s.fieldContent h number = []

/-- A document follows its schema. -/
structure FollowsSchema (s : Store) (d : NodeHandle) : Prop where
  root : ∃ root e c, s.documentRoot? d = some root ∧ s.content? root = some (.structuredEntity e) ∧
    s.class? e.descriptor = some c ∧ c.root = true
  entity : ∀ h e, ReflTransGen s.Owns d h → s.entity? h = some e → s.FollowsClass h e
  annotation : ∀ h ∈ s.listed d .documentAnnotations, ∃ a start stop, s.annotation? h = some a ∧
    a.start = some start ∧ a.stop = some stop ∧ s.isA start .anchor = true ∧
    s.isA stop .anchor = true ∧ s.ComesBefore d start stop
  anchor : ∀ h, ReflTransGen s.Owns d h → s.isA h .anchor = true → ∃ mark a,
    s.anchorAnnotation? h = some mark ∧ s.annotation? mark = some a ∧
    (a.start = some h ∨ a.stop = some h)

/-! ## What validation looks at -/

variable {s : Store}

/-- A node that passes its checks refers to live nodes only. -/
lemma passes_spec {h : NodeHandle} (hp : s.passes h = true) :
    ∃ n, s.get? h = some n ∧ (∀ e ∈ n.edges, s.contains e.target = true) ∧
      (s.checkContent h n.content).value = true := by
  unfold passes at hp
  cases hn : s.get? h with
  | none => rw [hn] at hp; cases hp
  | some n =>
    rw [hn, Option.map_some, Option.getD_some, checkNode, Check.value_all, List.all_cons,
      Bool.and_eq_true, List.all_cons, List.all_nil, Bool.and_true] at hp
    refine ⟨n, rfl, fun e he => ?_, hp.2⟩
    have hr := hp.1
    rw [checkReferences, Check.value_all, List.all_map, List.all_eq_true] at hr
    simpa using hr e he

lemma passes_content {h : NodeHandle} {c : Content} (hp : s.passes h = true)
    (hc : s.content? h = some c) : (s.checkContent h c).value = true := by
  obtain ⟨n, hn, -, h⟩ := passes_spec hp
  rw [content?, hn, Option.map_some] at hc
  cases hc
  exact h

/-- What a node owns has to be valid for the node to be valid. -/
lemma Sound.needs_of_owns (hs : s.Sound) {p c : NodeHandle} (h : s.Owns p c) : s.Needs p c := by
  have hl := hs.contains_of_owns h
  obtain ⟨slot, hslot, hc⟩ := h
  obtain ⟨n, hn⟩ := contains_iff.1 (contains_of_mem_held hc)
  rw [held_of_get? hn] at hc
  rw [Needs, needs, hn, Option.map_some, Option.getD_some, neededBy, List.mem_filter]
  refine ⟨List.mem_append_right _ ?_, hl⟩
  exact (hs.shaped p n hn).mem_owned_iff.2 ⟨slot, hslot, hc⟩

/-- Everything passes its checks that a valid node owns, directly or not, if there are no marks. -/
lemma Sound.passes_of_validate (hs : s.Sound) (hno : ∀ n, s.isValidated n = false) {d h : NodeHandle}
    (hv : (s.validate d).value.1 = true) (hh : ReflTransGen s.Owns d h) : s.passes h = true := by
  rw [validate_iff, hno d] at hv
  refine hv.resolve_left Bool.false_ne_true h ?_
  exact ReflTransGen.mono (fun _ k hk => ⟨hs.needs_of_owns hk, hno k⟩) _ _ hh

/-! ## What the checks say -/

lemma isValue_of_check {l : Location} {name : String} {optional : Bool} {type : NodeHandle}
    {content : List NodeHandle}
    (h : (s.checkPrimitiveField l name optional type content).value = true) :
    s.IsValue optional type content := by
  unfold checkPrimitiveField at h
  split at h
  · rw [Check.value_demand] at h
    exact .inr ⟨rfl, h⟩
  · next c =>
    split at h
    · next v hv => exact .inl ⟨c, v, rfl, hv, h⟩
    · cases h
  · cases h

lemma entity?_of_content? {h : NodeHandle} {e : EntityContent}
    (hc : s.content? h = some (.structuredEntity e)) : s.entity? h = some e := by
  rw [entity?, hc]

section Sorted

variable (hs : s.Sound) (ho : s.Sorted)
include hs ho

/-- No node in a field is passed over. -/
lemma Sorted.areEntities_of_check {h descriptor : NodeHandle} {number : Nat} {l : Location}
    {name : String} {optional : Bool} {declared : List NodeHandle}
    (hm : ∀ c ∈ s.filling h number, (s.checkMember name descriptor declared c).value = true)
    (hcount : ∀ d ∈ declared, (s.checkCount l name (s.filling h number) d).value = true) :
    s.AreEntities optional declared (s.filling h number) := by
  refine ⟨fun c hc => ?_, .inr fun d hd cls hcls => ?_⟩
  · have hcheck := hm c hc
    obtain ⟨hc, hna⟩ := List.mem_filter.1 hc
    unfold checkMember at hcheck
    rcases ho.cases_fieldContent hs hc with ⟨e, he⟩ | hp | ha
    · refine ⟨e, he, ?_⟩
      split at hcheck
      · cases hcheck
      · rw [entity?_of_content? he, Check.value_demand, List.any_eq_true] at hcheck
        exact hcheck
    · rw [hp, if_pos rfl] at hcheck
      cases hcheck
    · rw [ha] at hna
      cases hna
  · have hcheck := hcount d hd
    rw [checkCount, hcls, Check.value_demand] at hcheck
    exact hcheck

lemma Sorted.fillsField_of_check {h field c : NodeHandle} {number : Nat} (descriptor : NodeHandle)
    (hf : field ∈ s.ownFields c)
    (hcheck : (s.checkEntityField h descriptor number field).value = true) :
    ∃ f, s.field? field = some f ∧ s.FillsField field f (s.filling h number) := by
  obtain ⟨f, hf⟩ := ho.exists_field hs hf
  refine ⟨f, hf, ?_⟩
  rw [checkEntityField, hf] at hcheck
  dsimp only at hcheck
  unfold FillsField
  cases htype : f.primitiveType with
  | some type =>
    rw [htype] at hcheck
    exact isValue_of_check hcheck
  | none =>
    rw [htype] at hcheck
    dsimp only at hcheck
    split at hcheck
    · next hempty =>
      obtain ⟨hnil, hopt⟩ := (Bool.and_eq_true _ _).mp hempty
      have hnil : s.filling h number = [] := List.isEmpty_iff.1 hnil
      rw [hnil]
      exact ⟨fun c hc => (by cases hc), .inl ⟨rfl, hopt⟩⟩
    · simp only [Check.value_all, List.all_cons, List.all_nil, Bool.and_true, Bool.and_eq_true,
        List.all_map, List.all_eq_true, Function.comp_apply] at hcheck
      exact ho.areEntities_of_check hs hcheck.1 hcheck.2

end Sorted

lemma exists_of_mem_visibleFields {seen : List String} {cs : List NodeHandle}
    {fields : List NodeHandle} {field : NodeHandle} (hl : fields ∈ s.visibleFields seen cs)
    (hf : field ∈ fields) : ∃ c, field ∈ s.ownFields c := by
  induction cs generalizing seen with
  | nil => cases hl
  | cons c r ih =>
    rcases List.mem_cons.1 hl with rfl | hl
    · exact ⟨c, Walk.mem_of_mem_firstByKey hf⟩
    · exact ih hl

/-- The fields of a class are its own or those of other classes. -/
lemma exists_of_mem_effectiveFields {d field : NodeHandle} (hf : field ∈ s.effectiveFields d) :
    ∃ c, field ∈ s.ownFields c := by
  unfold effectiveFields at hf
  split at hf
  · exact ⟨d, hf⟩
  · rcases List.mem_append.1 hf with hf | hf
    · obtain ⟨level, hl, hf⟩ := List.mem_flatten.1 hf
      obtain ⟨fields, hfields, rfl⟩ := List.mem_map.1 (List.mem_reverse.1 hl)
      exact exists_of_mem_visibleFields hfields (List.mem_filter.1 hf).1
    · rw [Option.mem_toList] at hf
      obtain ⟨fields, hfields, hf⟩ := List.mem_flatten.1 (List.mem_of_find?_eq_some hf)
      exact exists_of_mem_visibleFields hfields hf

/-- The field of an entity with a number is the one at that place. -/
lemma fieldContent_eq_nil (hs : s.Shaped) {h : NodeHandle} {n : Node} {number count : Nat}
    (hn : s.get? h = some n) (he : n.content.isEntity = true)
    (hb : s.hasContentBeyond h count = false) (hc : count ≤ number) :
    s.fieldContent h number = [] := by
  rw [List.eq_nil_iff_forall_not_mem]
  intro c hm
  rw [fieldContent, listed, hn, Option.map_some, Option.getD_some, Node.listed_eq] at hm
  have hmem := Node.mem_rosters_of_mem_items hm
  obtain ⟨i, hi, hget⟩ := List.getElem_of_mem hmem
  have hslot : n.slots[i]? = some (.entityField number) := by
    rw [Node.slots, List.getElem?_map, List.getElem?_eq_getElem hi, hget, Option.map_some]
  rw [(hs h n hn).slots_eq, he, if_pos rfl, List.getElem?_map, List.getElem?_range hi,
    Option.map_some, Option.some.injEq, Slot.entityField.injEq] at hslot
  subst hslot
  rw [hasContentBeyond, hn, Option.map_some, Option.getD_some, List.any_eq_false] at hb
  have hdrop : (Slot.entityField i, n.rosterAt (.entityField i)) ∈ n.rosters.drop count := by
    rw [List.mem_drop_iff_getElem]
    refine ⟨i - count, by omega, ?_⟩
    rw [← hget]
    congr 1
    omega
  have hempty := hb _ hdrop
  rw [Bool.not_eq_true, Bool.not_eq_false', List.isEmpty_iff] at hempty
  rw [hempty] at hm
  cases hm

lemma isEntity_of_entity? {h : NodeHandle} {e : EntityContent} (he : s.entity? h = some e) :
    ∃ n, s.get? h = some n ∧ n.content.isEntity = true := by
  unfold entity? content? at he
  cases hn : s.get? h with
  | none => rw [hn] at he; cases he
  | some n =>
    rw [hn, Option.map_some] at he
    refine ⟨n, rfl, ?_⟩
    cases hc : n.content <;> rw [hc] at he <;> first | rfl | cases he

lemma checkAnnotation_spec {h : NodeHandle} {a : Annotation}
    (hcheck : ( s.checkAnnotation h a).value = true) :
    (s.checkEntity h a.entity).value = true ∧ ∃ start stop, a.start = some start ∧
      a.stop = some stop ∧ (s.checkEndpoints h start stop).value = true ∧
      s.compareInDocument start stop = some .lt := by
  simp only [ checkAnnotation, Logged.value_bind] at hcheck
  split at hcheck
  · cases hcheck
  · rw [Logged.value_bind] at hcheck
    split at hcheck
    · next start stop hstart hstop =>
      rw [Logged.value_bind] at hcheck
      split at hcheck
      · next hok =>
        simp only [Bool.and_eq_true] at hok
        rw [Check.value_demand, beq_iff_eq] at hcheck
        exact ⟨hok.1.2, start, stop, hstart, hstop, hok.2, hcheck⟩
      · cases hcheck
    · next hnone =>
      simp only [Check.value_all, List.all_cons, List.all_nil, Bool.and_true, Bool.and_eq_true,
        Check.value_demand] at hcheck
      obtain ⟨start, hstart⟩ := Option.isSome_iff_exists.1 hcheck.1
      obtain ⟨stop, hstop⟩ := Option.isSome_iff_exists.1 hcheck.2
      exact (hnone start stop hstart hstop).elim

section Sound

variable (hs : s.Sound) (ho : s.Sorted)
include hs ho

lemma Sorted.followsClass_of_check {h : NodeHandle} {e : EntityContent} (he : s.entity? h = some e)
    (hcheck : (s.checkEntity h e).value = true) : s.FollowsClass h e := by
  simp only [checkEntity, Check.value_all, List.all_cons, List.all_nil, Bool.and_true,
    Bool.and_eq_true, Check.value_demand, Bool.not_eq_true', List.all_map, List.all_eq_true,
    Function.comp_apply] at hcheck
  obtain ⟨hattributes, hbeyond, hfields⟩ := hcheck
  refine ⟨fun type ht => ?_, fun number field hf => ?_, fun number hnumber => ?_⟩
  · rw [ht] at hattributes
    exact hattributes
  · obtain ⟨c, hc⟩ := exists_of_mem_effectiveFields (List.mem_of_getElem? hf)
    refine ho.fillsField_of_check hs e.descriptor hc (hfields (field, number) ?_)
    rw [List.mem_zipIdx_iff_getElem?]
    exact hf
  · obtain ⟨n, hn, hent⟩ := isEntity_of_entity? he
    exact fieldContent_eq_nil hs.shaped hn hent hbeyond hnumber

/-- Structured entities and annotations that pass their checks follow their classes. -/
lemma Sorted.followsClass_of_passes {h : NodeHandle} {e : EntityContent}
    (he : s.entity? h = some e) (hp : s.passes h = true) : s.FollowsClass h e := by
  refine ho.followsClass_of_check hs he ?_
  unfold entity? at he
  split at he
  · next e' hc =>
    cases he
    have h := passes_content hp hc
    simp only [checkContent, checkStructuredEntity, Check.value_all, List.all_cons, List.all_nil,
      Bool.and_true, Bool.and_eq_true] at h
    obtain ⟨-, h⟩ := h
    split at h
    · exact h
    · cases h
  · next e' start stop hc =>
    cases he
    exact (checkAnnotation_spec (passes_content hp hc)).1
  · cases he

/-- An annotation that passes its checks reaches from an anchor to a later one. -/
lemma Sorted.annotation_of_passes {d h : NodeHandle} (hh : h ∈ s.listed d .documentAnnotations)
    (hp : s.passes h = true) :
    ∃ a start stop, s.annotation? h = some a ∧ a.start = some start ∧ a.stop = some stop ∧
      s.isA start .anchor = true ∧ s.isA stop .anchor = true ∧ s.ComesBefore d start stop := by
  obtain ⟨e, start?, stop?, hc⟩ := ho.exists_annotation hs hh
  obtain ⟨-, start, stop, hstart, hstop, hends, hcompare⟩ :=
    checkAnnotation_spec (passes_content hp hc)
  dsimp only at hstart hstop
  subst hstart hstop
  obtain ⟨n, hn, hlive, -⟩ := passes_spec hp
  have hcontent : n.content = .annotationEntity e (some start) (some stop) := by
    rw [content?, hn, Option.map_some] at hc
    exact Option.some.inj hc
  -- the endpoints are references, and so are live
  have hanchor : ∀ a, a = start ∨ a = stop → s.isA a .anchor = true := by
    intro a ha
    have hmem : a ∈ (Content.annotationEntity e (some start) (some stop)).endpoints := by
      rcases ha with rfl | rfl <;> simp [Content.endpoints]
    refine ho.anchor hc hmem (hlive ⟨a, false⟩ ?_)
    rw [Node.edges, List.mem_append, List.mem_append, Node.referenceEdges, hcontent]
    refine .inl (.inr (List.mem_map_of_mem ?_))
    rcases ha with rfl | rfl <;> simp [Content.references]
  rw [listed_eq_held d rfl] at hh
  have hparent : s.parent? h = some d := by
    rw [parent?_eq, hs.home_of_held rfl hh, Option.map_some]
  simp only [checkEndpoints, hparent, Check.value_all, List.all_cons, List.all_nil, Bool.and_true,
    Bool.and_eq_true, Check.value_demand] at hends
  have hd := contains_of_mem_held hh
  refine ⟨⟨e, some start, some stop⟩, start, stop, ?_, rfl, rfl, hanchor start (.inl rfl),
    hanchor stop (.inr rfl), hs.comesBefore hd hends.1 hends.2 hcompare⟩
  rw [annotation?, hc]

/-- A document that passes its checks has a root that may be one. -/
lemma Sorted.root_of_passes {d : NodeHandle} (hd : s.content? d = some .document)
    (hp : s.passes d = true) :
    ∃ root e c, s.documentRoot? d = some root ∧ s.content? root = some (.structuredEntity e) ∧
      s.class? e.descriptor = some c ∧ c.root = true := by
  have h := passes_content hp hd
  simp only [checkContent, checkDocument, Check.value_all, List.all_cons, List.all_nil,
    Bool.and_true, Bool.and_eq_true] at h
  obtain ⟨-, h⟩ := h
  cases hroot : s.documentRoot? d with
  | none => rw [hroot] at h; cases h
  | some root =>
    obtain ⟨e, he⟩ := ho.exists_root_entity hs (documentRoot?_eq_some_iff.1 hroot)
    rw [hroot] at h
    dsimp only at h
    rw [entity?_of_content? he] at h
    dsimp only at h
    rw [Check.value_demand] at h
    cases hc : s.class? e.descriptor with
    | none => rw [hc] at h; cases h
    | some c => rw [hc] at h; exact ⟨root, e, c, rfl, he, hc, h⟩

end Sound

/-- An anchor that passes its checks is an endpoint of the annotation it names. -/
lemma anchor_of_passes {h : NodeHandle} (hh : s.isA h .anchor = true) (hp : s.passes h = true) :
    ∃ mark a, s.anchorAnnotation? h = some mark ∧ s.annotation? mark = some a ∧
      (a.start = some h ∨ a.stop = some h) := by
  obtain ⟨c, hc, hk⟩ := exists_content_of_isA hh
  have htag : c.tag = .anchor := (TypeTag.isA_iff_eq (by decide)).1 hk
  rcases Content.cases_ofContent (c := c) (by rw [htag]; decide) with ⟨_, rfl⟩ | ⟨_, rfl⟩ |
    ⟨_, rfl⟩ | ⟨mark, rfl⟩ | ⟨_, _, _, rfl⟩
  · cases htag
  · cases htag
  · cases htag
  · have h := passes_content hp hc
    cases mark with
    | none => cases h
    | some mark =>
      simp only [checkContent, checkAnchor, Check.value_demand] at h
      cases ha : s.annotation? mark with
      | none => rw [ha] at h; cases h
      | some a =>
        rw [ha, Option.map_some, Option.getD_some, Bool.or_eq_true, beq_iff_eq, beq_iff_eq] at h
        refine ⟨mark, a, ?_, ha, h⟩
        rw [anchorAnnotation?, hc]
  · cases htag

/-- A document that is found valid while nothing is marked follows its schema, down to everything that
it owns. -/
theorem followsSchema_of_validate (steps : List SessionStep) (d : NodeHandle)
    (hno : ∀ n, (after steps).isValidated n = false) (hd : (after steps).isA d .document = true)
    (hv : ((after steps).validate d).value.1 = true) : (after steps).FollowsSchema d := by
  have hs := sound_after steps
  have ho := sorted_after steps
  have hp := fun h => hs.passes_of_validate (h := h) hno hv
  obtain ⟨c, hc, hk⟩ := exists_content_of_isA hd
  rw [Content.eq_document (TypeTag.eq_document hk)] at hc
  refine ⟨ho.root_of_passes hs hc (hp d .refl), fun h e hh he => ?_, fun h hh => ?_,
    fun h hh ha => anchor_of_passes ha (hp h hh)⟩
  · exact ho.followsClass_of_passes hs he (hp h hh)
  · refine ho.annotation_of_passes hs hh (hp h (.single ⟨.documentAnnotations, rfl, ?_⟩))
    rwa [← listed_eq_held d rfl]

/-- A session that creates a document with a text between the anchors of an annotation. -/
def markedTextSession : List SessionStep :=
  [.operate .createSystemTypesystem, .operate (.createOntology "o"),
    .operate (.createClass ⟨6, 1⟩ "book" .any none false true),
    .operate (.createField ⟨7, 1⟩ .tree "" false none),
    .operate (.createClass ⟨6, 1⟩ "text" .any none false false),
    .operate (.createField ⟨10, 1⟩ .tree "" false (some ⟨2, 1⟩)),
    .operate (.addChildClass ⟨9, 1⟩ ⟨10, 1⟩),
    .operate (.createAnnotationClass ⟨6, 1⟩ "emphasis"), .operate (.createDocument "d"),
    .operate (.createRoot ⟨15, 1⟩ ⟨7, 1⟩ none ""), .operate (.createAnchor ⟨16, 1⟩ ""),
    .operate (.createChild ⟨16, 1⟩ ⟨10, 1⟩ none "" ""),
    .operate (.createPrimitive ⟨18, 1⟩ (.string "t") ""), .operate (.createAnchor ⟨16, 1⟩ ""),
    .operate ( Operation.createAnnotation ⟨15, 1⟩ ⟨13, 1⟩ none (some ⟨17, 1⟩) (some ⟨20, 1⟩) "")]

/-- The document is valid while nothing is marked, and so follows its schema. -/
theorem followsSchema_of_validate_markedTextSession :
    (∀ n, (after markedTextSession).isValidated n = false) ∧
      (after markedTextSession).isA ⟨15, 1⟩ .document = true ∧
      ((after markedTextSession).validate ⟨15, 1⟩).value.1 = true ∧
      (after markedTextSession).FollowsSchema ⟨15, 1⟩ := by
  have hno : ∀ n, (after markedTextSession).isValidated n = false := by
    intro n
    by_contra hn
    obtain ⟨before, h, since, e, -⟩ := markedIn_of_isValidated _ n (by simpa using hn)
    -- no step of the session is a validation
    have hmem : SessionStep.validate h ∈ markedTextSession := by rw [e]; simp
    simp [markedTextSession] at hmem
  have hd : (after markedTextSession).isA ⟨15, 1⟩ .document = true := by decide +kernel
  have hv : ((after markedTextSession).validate ⟨15, 1⟩).value.1 = true := by decide +kernel
  exact ⟨hno, hd, hv, followsSchema_of_validate markedTextSession ⟨15, 1⟩ hno hd hv⟩

end Store

end Semdoc
