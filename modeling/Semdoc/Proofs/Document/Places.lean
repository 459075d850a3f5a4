import Semdoc.Document.Query
import Semdoc.Proofs.Session.Kinds

/-!
# Places in documents

What the slots of documents, entities and classes hold is of the kind that the slots ask for.  The place
of a node in a document is the way down to it from the root, and the order of two nodes is that of their
ways.
-/

namespace Semdoc

/-- The order of steps from the same node: by field, and in a field by position. -/
def Step.Before (a b : Step) : Prop := a.field < b.field ∨ a.field = b.field ∧ a.position < b.position

/-- Ways are compared step by step. -/
lemma Place.compareWays_lt_iff (p q : List Step) :
    Place.compareWays p q = .lt ↔ List.Lex Step.Before p q := by
  induction p generalizing q with
  | nil =>
    cases q with
    | nil => exact ⟨fun h => (by cases h), fun h => (by cases h)⟩
    | cons b t => exact ⟨fun _ => .nil, fun _ => rfl⟩
  | cons a r ih =>
    cases q with
    | nil => exact ⟨fun h => (by cases h), fun h => (by cases h)⟩
    | cons b t =>
      rw [Place.compareWays, Ordering.then_eq_lt, ih, Step.compareSteps, Ordering.then_eq_lt,
        Ordering.then_eq_eq, Nat.compare_eq_lt, Nat.compare_eq_lt, Nat.compare_eq_eq,
        Nat.compare_eq_eq]
      constructor
      · rintro (h | ⟨⟨h1, h2⟩, h⟩)
        · exact .rel h
        · obtain ⟨f, i⟩ := a
          obtain ⟨g, j⟩ := b
          cases h1
          cases h2
          exact .cons h
      · intro h
        cases h with
        | rel h => exact .inl h
        | cons h => exact .inr ⟨⟨rfl, rfl⟩, h⟩

namespace TypeTag

/-- Some tags that no two kinds of content have. -/
def ofContent : List TypeTag :=
  [fieldDescriptor, structuredEntity, documentPrimitive, anchor, annotationEntity]

lemma eq_document {t : TypeTag} (h : t.isA .document = true) : t = .document :=
  (isA_iff_eq (by decide)).1 h

lemma cases_structureNode {t : TypeTag} (h : t.isA .structureNode = true) :
    t = .structureNode ∨ t = .structuredEntity ∨ t = .documentPrimitive ∨ t = .anchor := by
  revert h
  cases t <;> decide +kernel

end TypeTag

lemma Content.cases_ofContent {c : Content} (h : c.tag ∈ TypeTag.ofContent) :
    (∃ f, c = .fieldDescriptor f) ∨ (∃ e, c = .structuredEntity e) ∨
      (∃ v, c = .documentPrimitive v) ∨ (∃ mark, c = .anchor mark) ∨
      ∃ e start stop, c = .annotationEntity e start stop := by
  cases c with
  | fieldDescriptor f => exact .inl ⟨f, rfl⟩
  | structuredEntity e => exact .inr (.inl ⟨e, rfl⟩)
  | documentPrimitive v => exact .inr (.inr (.inl ⟨v, rfl⟩))
  | anchor mark => exact .inr (.inr (.inr (.inl ⟨mark, rfl⟩)))
  | annotationEntity e start stop => exact .inr (.inr (.inr (.inr ⟨e, start, stop, rfl⟩)))
  | typesystem b => cases b <;> exact absurd h (by decide)
  | type shape => cases shape <;> exact absurd h (by dsimp only [tag, TypeShape.tag]; decide)
  | _ => exact absurd h (by dsimp only [tag]; decide)

lemma Content.eq_document {c : Content} (h : c.tag = .document) : c = .document := by
  cases c with
  | document => rfl
  | typesystem b => cases b <;> cases h
  | type shape => cases shape <;> cases h
  | _ => cases h

lemma Content.tag_ne_structureNode (c : Content) : c.tag ≠ .structureNode := by
  cases c with
  | typesystem b => cases b <;> decide
  | type shape => cases shape <;> dsimp only [tag, TypeShape.tag] <;> decide
  | _ => dsimp only [tag]; decide

namespace Store

variable {s : Store}

lemma exists_content_of_isA {h : NodeHandle} {type : TypeTag} (hh : s.isA h type = true) :
    ∃ c, s.content? h = some c ∧ c.tag.isA type = true := by
  rw [isA_eq] at hh
  cases hc : s.content? h with
  | none => rw [hc] at hh; cases hh
  | some c => rw [hc] at hh; exact ⟨c, rfl, hh⟩

/-- A node that is owned through a slot has a content of the kind that the slot asks for. -/
lemma Sorted.exists_content (hs : s.Sound) (ho : s.Sorted) {o c : NodeHandle} {slot : Slot}
    (hslot : slot.isComposition = true) (hc : c ∈ s.held o slot) :
    ∃ d, s.content? c = some d ∧ d.tag.isA slot.kind = true :=
  exists_content_of_isA (ho.fits (hs.home_of_held hslot hc) hslot)

section Kinds

variable (hs : s.Sound) (ho : s.Sorted)
include hs ho

/-- What a class lists as its fields are fields. -/
lemma Sorted.exists_field {d field : NodeHandle} (hf : field ∈ s.ownFields d) :
    ∃ f, s.field? field = some f := by
  rw [ownFields, listed_eq_held d rfl] at hf
  obtain ⟨c, hc, hk⟩ := ho.exists_content hs rfl hf
  have htag : c.tag = .fieldDescriptor := (TypeTag.isA_iff_eq (by decide)).1 hk
  unfold field?
  rw [hc]
  rcases Content.cases_ofContent (by rw [htag]; decide) with ⟨f, rfl⟩ | ⟨_, rfl⟩ | ⟨_, rfl⟩ |
    ⟨_, rfl⟩ | ⟨_, _, _, rfl⟩
  · exact ⟨f, rfl⟩
  all_goals cases htag

/-- What is in a field of an entity is an entity, a value or an anchor. -/
lemma Sorted.cases_fieldContent {h c : NodeHandle} {number : Nat}
    (hc : c ∈ s.fieldContent h number) :
    (∃ e, s.content? c = some (.structuredEntity e)) ∨ s.isA c .documentPrimitive = true ∨
      s.isA c .anchor = true := by
  rw [fieldContent, listed_eq_held h rfl] at hc
  obtain ⟨d, hd, hk⟩ := ho.exists_content hs rfl hc
  have hisA : ∀ type, s.isA c type = d.tag.isA type := fun type => by
    rw [isA_eq, hd, Option.map_some, Option.getD_some]
  rcases TypeTag.cases_structureNode hk with ht | ht | ht | ht
  · exact absurd ht d.tag_ne_structureNode
  · rcases Content.cases_ofContent (c := d) (by rw [ht]; decide) with ⟨_, rfl⟩ | ⟨e, rfl⟩ |
      ⟨_, rfl⟩ | ⟨_, rfl⟩ | ⟨_, _, _, rfl⟩
    · cases ht
    · exact .inl ⟨e, hd⟩
    all_goals cases ht
  · exact .inr (.inl (by rw [hisA, ht]; exact TypeTag.isA_self _))
  · exact .inr (.inr (by rw [hisA, ht]; exact TypeTag.isA_self _))

/-- What a document lists as its annotations are annotations. -/
lemma Sorted.exists_annotation {d h : NodeHandle} (hh : h ∈ s.listed d .documentAnnotations) :
    ∃ e start stop, s.content? h = some (.annotationEntity e start stop) := by
  rw [listed_eq_held d rfl] at hh
  obtain ⟨c, hc, hk⟩ := ho.exists_content hs rfl hh
  have htag : c.tag = .annotationEntity := (TypeTag.isA_iff_eq (by decide)).1 hk
  rcases Content.cases_ofContent (c := c) (by rw [htag]; decide) with ⟨_, rfl⟩ | ⟨_, rfl⟩ |
    ⟨_, rfl⟩ | ⟨_, rfl⟩ | ⟨e, start, stop, rfl⟩
  · cases htag
  · cases htag
  · cases htag
  · cases htag
  · exact ⟨e, start, stop, hc⟩

/-- The root of a document is an entity. -/
lemma Sorted.exists_root_entity {d root : NodeHandle} (hr : root ∈ s.held d .documentRoot) :
    ∃ e, s.content? root = some (.structuredEntity e) := by
  obtain ⟨c, hc, hk⟩ := ho.exists_content hs rfl hr
  have htag : c.tag = .structuredEntity := (TypeTag.isA_iff_eq (by decide)).1 hk
  rcases Content.cases_ofContent (c := c) (by rw [htag]; decide) with ⟨_, rfl⟩ | ⟨e, rfl⟩ |
    ⟨_, rfl⟩ | ⟨_, rfl⟩ | ⟨_, _, _, rfl⟩
  · cases htag
  · exact ⟨e, hc⟩
  all_goals cases htag

end Kinds

/-- The root of a document is what it holds in the slot for it. -/
lemma documentRoot?_eq_some_iff {d root : NodeHandle} :
    s.documentRoot? d = some root ↔ root ∈ s.held d .documentRoot := by
  unfold documentRoot? held
  cases s.get? d with
  | none => simp
  | some n =>
    obtain ⟨uid, name, content, home, location, single, rosters, listeners, validated⟩ := n
    cases content <;> simp [Node.held, Slot.isSingle, Content.singleSlot?, Option.mem_toList]

/-- A way down from a node through fields. -/
inductive Way (s : Store) : NodeHandle → List Step → NodeHandle → Prop where
  | here (h : NodeHandle) : Way s h [] h
  | down {h c t : NodeHandle} {field position : Nat} {steps : List Step}
      (hc : (s.fieldContent h field)[position]? = some c) (hw : Way s c steps t) :
      Way s h (⟨field, position⟩ :: steps) t

lemma Way.snoc {h k c : NodeHandle} {steps : List Step} {field position : Nat}
    (hw : s.Way h steps k) (hc : (s.fieldContent k field)[position]? = some c) :
    s.Way h (steps ++ [⟨field, position⟩]) c := by
  induction hw with
  | here h => exact .down hc (.here c)
  | down hc' _ ih => exact .down hc' (ih hc)

/-- Going up from a node, one comes to a document by the way that leads down from its root. -/
lemma exists_way_of_placeAbove {d : NodeHandle} {fuel : Nat} {h : NodeHandle} {steps way : List Step}
    (hp : s.placeAbove fuel h steps = some ⟨d, way⟩) :
    ∃ root pre, way = pre ++ steps ∧ s.home? root = some ⟨d, .documentRoot⟩ ∧ s.Way root pre h := by
  induction fuel generalizing h steps with
  | zero => cases hp
  | succ fuel ih =>
    unfold placeAbove at hp
    split at hp
    · next owner field hh =>
      split at hp
      · next position hpos =>
        obtain ⟨root, pre, rfl, hroot, hway⟩ := ih hp
        obtain ⟨hlt, heq, -⟩ := List.findIdx?_eq_some_iff_getElem.1 hpos
        refine ⟨root, pre ++ [⟨field, position⟩], by simp, hroot, hway.snoc ?_⟩
        rw [List.getElem?_eq_getElem hlt, beq_iff_eq.1 heq]
      · cases hp
    · next owner hh =>
      cases hp
      exact ⟨h, [], rfl, hh, .here h⟩
    · cases hp

/-- The place of a node in a document tells the way to it. -/
lemma Sound.way_of_place? (hs : s.Sound) {d h : NodeHandle} {way : List Step}
    (hd : s.contains d = true) (hp : s.place? h = some ⟨d, way⟩) :
    ∃ root, s.documentRoot? d = some root ∧ s.Way root way h := by
  obtain ⟨root, pre, rfl, hroot, hway⟩ := exists_way_of_placeAbove hp
  refine ⟨root, documentRoot?_eq_some_iff.2 (hs.held_of_home hroot hd).2, ?_⟩
  rwa [List.append_nil]

/-- A node comes before another one in the tree of a document. -/
def ComesBefore (s : Store) (d a b : NodeHandle) : Prop :=
  ∃ root p q, s.documentRoot? d = some root ∧ s.Way root p a ∧ s.Way root q b ∧
    List.Lex Step.Before p q

/-- Two nodes of a document are compared by their ways. -/
lemma Sound.comesBefore (hs : s.Sound) {d a b : NodeHandle} (hd : s.contains d = true)
    (ha : s.documentContains d a = true) (hb : s.documentContains d b = true)
    (h : s.compareInDocument a b = some .lt) : s.ComesBefore d a b := by
  have hplace : ∀ h, s.documentContains d h = true → ∃ way, s.place? h = some ⟨d, way⟩ := by
    intro h hh
    unfold documentContains at hh
    cases hp : s.place? h with
    | none => rw [hp] at hh; cases hh
    | some p =>
      rw [hp] at hh
      obtain rfl : p.document = d := by simpa using hh
      exact ⟨p.steps, rfl⟩
  obtain ⟨p, hp⟩ := hplace a ha
  obtain ⟨q, hq⟩ := hplace b hb
  obtain ⟨root, hroot, hwp⟩ := hs.way_of_place? hd hp
  obtain ⟨root', hroot', hwq⟩ := hs.way_of_place? hd hq
  obtain rfl : root = root' := Option.some.inj (hroot.symm.trans hroot')
  refine ⟨root, p, q, hroot, hwp, hwq, (Place.compareWays_lt_iff p q).1 ?_⟩
  rw [compareInDocument, hp, hq] at h
  simpa using h

end Store

end Semdoc
