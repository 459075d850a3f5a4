import Semdoc.Proofs.Session.Kinds

/-!
# Outcomes of edits

What the edits answer of which others are made, and which store they leave then.  A new node gets the next
handle, which reaches nothing before; it can be put into a slot as soon as its owner has the slot.
-/

namespace Semdoc

namespace Node

/-- Slots that are there from the beginning accept nodes in a node whose content asks for them. -/
lemma Shaped.accepts_iff {n : Node} (hn : n.Shaped) {slot : Slot} (hs : slot.isSingle = false)
    (hf : slot.isField = false) : n.accepts slot = true ↔ slot ∈ n.content.listSlots := by
  rw [accepts, hs, hf, if_neg Bool.false_ne_true, Bool.false_and, Bool.false_or,
    roster?_isSome_iff, hn.slots_eq]
  split
  · next he =>
    refine iff_of_false (fun h => ?_) ?_
    · obtain ⟨i, -, rfl⟩ := List.mem_map.1 h
      cases hf
    · cases hc : n.content <;> simp_all [Content.isEntity, Content.listSlots]
  · rfl

end Node

/-- Some slots that only nodes of one type have. -/
lemma Content.mem_listSlots_iff {slot : Slot} {type : TypeTag}
    (h : slot = .documentAnnotations ∧ type = .document ∨
      slot = .ontologyClasses ∧ type = .ontology) (c : Content) :
    slot ∈ c.listSlots ↔ c.tag = type := by
  rcases h with ⟨rfl, rfl⟩ | ⟨rfl, rfl⟩ <;> cases c with
  | typesystem b => cases b <;> simp [listSlots, tag]
  | type shape => cases shape <;> simp [listSlots, tag, TypeShape.tag]
  | _ => simp [listSlots, tag]

namespace Store

variable {s : Store}

lemma SameContents.place (s : Store) (o : NodeHandle) (slot : Slot) (c : NodeHandle) :
    SameContents s (s.place o slot c) := by
  rw [place_eq]
  refine .trans ?_ ((SameContents.link _ o slot c).trans (.invalidate _ o))
  split
  · exact .detach s c
  · exact .refl s

lemma content?_create (hs : s.Intact) (name : String) (content : Content) (k : NodeHandle) :
    (s.create name content).2.content? k =
      if k = s.nextHandle then some content else s.content? k := by
  rw [content?, hs.get?_create]
  split <;> rfl

lemma isA_nextHandle (hs : s.Intact) (type : TypeTag) : s.isA s.nextHandle type = false := by
  rw [isA, get?_nextHandle hs]
  rfl

/-- A new node can be put into a slot for owned nodes of every node that has the slot. -/
lemma attachFault?_create (hs : s.Sound) {o : NodeHandle} {slot : Slot}
    (hslot : slot.isComposition = true) (name : String) (content : Content) :
    (s.create name content).2.attachFault? o slot s.nextHandle = none ↔ s.Accepts o slot := by
  have ht := hs.create name content
  have hget := hs.intact.get?_create name content
  constructor
  · intro h
    obtain ⟨⟨n, hn, ha⟩, -, hout⟩ := ht.of_attachFault? h
    have hne : o ≠ s.nextHandle := fun e => hout hslot (e ▸ .refl)
    rw [hget, if_neg hne] at hn
    exact ⟨n, hn, ha⟩
  · rintro ⟨n, hn, ha⟩
    have hne : o ≠ s.nextHandle := ne_nextHandle hs.intact (contains_iff.2 ⟨n, hn⟩)
    have hc : (s.create name content).2.contains s.nextHandle = true := by
      rw [contains, hget, if_pos rfl]
      rfl
    have hanc : (s.create name content).2.isAncestor s.nextHandle o = false := by
      rw [← Bool.not_eq_true, isAncestor_iff ht.acyclic]
      intro h
      obtain ⟨k, hk, -⟩ := Relation.TransGen.head'_iff.1 h
      -- a handle that is new owns nothing
      obtain ⟨home, hh, e⟩ := Option.map_eq_some_iff.1 ((parent?_eq _ k).symm.trans hk)
      have hk' : k ≠ s.nextHandle := by
        rintro rfl
        rw [home?, hget, if_pos rfl] at hh
        cases hh
      rw [home?, hget, if_neg hk'] at hh
      exact hs.intact.ne_nextHandle (hs.issued hh) e
    rw [attachFault?, hget, if_neg hne, hn]
    simp [hc, ha, hanc, hne]

lemma isA_iff_content? {k : NodeHandle} {type : TypeTag} (ht : type ∈ TypeTag.leaves) :
    s.isA k type = true ↔ ∃ c, s.content? k = some c ∧ c.tag = type := by
  rw [isA_eq]
  cases s.content? k with
  | none => simp
  | some c => simp [TypeTag.isA_iff_eq ht]

/-- Which slots a node has is a matter of its content. -/
lemma accepts_iff_content? (hs : s.Shaped) {slot : Slot} (hsingle : slot.isSingle = false)
    (hfield : slot.isField = false) (o : NodeHandle) :
    s.Accepts o slot ↔ ∃ c, s.content? o = some c ∧ slot ∈ c.listSlots := by
  constructor
  · rintro ⟨n, hn, ha⟩
    exact ⟨n.content, by rw [content?, hn, Option.map_some],
      ((hs o n hn).accepts_iff hsingle hfield).1 ha⟩
  · rintro ⟨c, hc, hslot⟩
    obtain ⟨n, hn, rfl⟩ := Option.map_eq_some_iff.1 hc
    exact ⟨n, hn, ((hs o n hn).accepts_iff hsingle hfield).2 hslot⟩

/-- A slot that nodes of one type have and no others. -/
lemma accepts_iff_isA (hs : s.Shaped) {slot : Slot} {type : TypeTag}
    (hsingle : slot.isSingle = false) (hfield : slot.isField = false) (ht : type ∈ TypeTag.leaves)
    (hc : ∀ c : Content, slot ∈ c.listSlots ↔ c.tag = type) (o : NodeHandle) :
    s.Accepts o slot ↔ s.isA o type = true := by
  rw [accepts_iff_content? hs hsingle hfield, isA_iff_content? ht]
  simp only [hc]

/-- Documents have annotations, and nothing else has. -/
lemma accepts_documentAnnotations (hs : s.Shaped) (o : NodeHandle) :
    s.Accepts o .documentAnnotations ↔ s.isA o .document = true :=
  accepts_iff_isA hs rfl rfl (by decide) (Content.mem_listSlots_iff (.inl ⟨rfl, rfl⟩)) o

/-- Ontologies have classes, and nothing else has. -/
lemma accepts_ontologyClasses (hs : s.Shaped) (o : NodeHandle) :
    s.Accepts o .ontologyClasses ↔ s.isA o .ontology = true :=
  accepts_iff_isA hs rfl rfl (by decide) (Content.mem_listSlots_iff (.inr ⟨rfl, rfl⟩)) o

/-! ## New nodes in slots -/

/-- A store with a new node in a slot. -/
def grown (s : Store) (o : NodeHandle) (slot : Slot) (name : String) (content : Content) : Store :=
  (s.create name content).2.place o slot s.nextHandle

lemma content?_grown (hs : s.Intact) (o : NodeHandle) (slot : Slot) (name : String)
    (content : Content) (k : NodeHandle) :
    (s.grown o slot name content).content? k =
      if k = s.nextHandle then some content else s.content? k := by
  rw [grown, (SameContents.place _ o slot _).content?, content?_create hs]

lemma isA_grown (hs : s.Intact) (o : NodeHandle) (slot : Slot) (name : String)
    (content : Content) (k : NodeHandle) (type : TypeTag) :
    (s.grown o slot name content).isA k type =
      if k = s.nextHandle then content.tag.isA type else s.isA k type := by
  rw [isA_eq, content?_grown hs, isA_eq]
  split <;> rfl

/-- A node that was there stays of its kind. -/
lemma isA_grown_of_isA (hs : s.Intact) {k : NodeHandle} {type : TypeTag} (hk : s.isA k type = true)
    (o : NodeHandle) (slot : Slot) (name : String) (content : Content) :
    (s.grown o slot name content).isA k type = true := by
  rw [isA_grown hs, if_neg (ne_nextHandle hs (contains_of_isA hk))]
  exact hk

/-- A new node has no owner to leave. -/
lemma grown_eq (hs : s.Intact) (o : NodeHandle) (slot : Slot) (name : String) (content : Content) :
    s.grown o slot name content =
      ((s.create name content).2.link o slot s.nextHandle).invalidate o := by
  have hhome : (s.create name content).2.home? s.nextHandle = none := by
    rw [home?, hs.get?_create, if_pos rfl]
    rfl
  rw [grown, place_eq, detach, hhome]
  split <;> rfl

/-- A node in a slot for a single one loses its home to a new node; all others stay at home. -/
lemma home?_grown (hs : s.Intact) (o : NodeHandle) (slot : Slot) (hslot : slot.isComposition = true)
    (name : String) (content : Content) (k : NodeHandle) :
    (s.grown o slot name content).home? k =
      if k = s.nextHandle then some ⟨o, slot⟩
      else if (s.create name content).2.makesRoom o slot k then none else s.home? k := by
  have hget := hs.get?_create name content
  have hc : (s.create name content).2.contains s.nextHandle = true := by
    rw [contains, hget, if_pos rfl]
    rfl
  rw [grown_eq hs, (SameNodes.invalidate _ o).home?, home?_link _ k hc]
  by_cases hk : k = s.nextHandle
  · rw [if_pos ⟨hk, hslot⟩, if_pos hk]
  · rw [if_neg fun h => hk h.1, if_neg hk, home?, hget, if_neg hk, ← home?]

/-- A new node is put into a slot that nobody else has to leave. -/
lemma home?_grown_of_home? (hs : s.Sound) {o p k : NodeHandle} {slot sl : Slot}
    (ha : s.Accepts o slot) (hslot : slot.isComposition = true) (name : String) (content : Content)
    (hk : s.home? k = some ⟨p, sl⟩) (hne : sl ≠ slot) :
    (s.grown o slot name content).home? k = some ⟨p, sl⟩ := by
  have hlive : k ≠ s.nextHandle := ne_nextHandle hs.intact (contains_of_home? hk)
  rw [home?_grown hs.intact o slot hslot, if_neg hlive, if_neg, hk]
  intro hroom
  obtain ⟨n, hn, hacc⟩ := ha
  have ho : o ≠ s.nextHandle := ne_nextHandle hs.intact (contains_iff.2 ⟨n, hn⟩)
  have ha' : (s.create name content).2.Accepts o slot :=
    ⟨n, by rw [hs.intact.get?_create, if_neg ho, hn], hacc⟩
  obtain ⟨-, hheld⟩ := (makesRoom_iff k ha').1 hroom
  have hhome := (hs.create name content).home_of_held hslot hheld
  rw [home?, hs.intact.get?_create, if_neg hlive, ← home?, hk] at hhome
  cases hhome
  exact hne rfl

end Store

namespace Edit

open Store

variable {α : Type}

@[simp] lemma pure_apply (a : α) (s : Store) : (pure a : Edit α).apply s = (.ok a, s) := rfl

lemma create_apply (name : String) (content : Content) (s : Store) :
    (create name content).apply s = (.ok s.nextHandle, (s.create name content).2) := by
  rw [← fst_create s name content]
  rfl

lemma attach_apply (o : NodeHandle) (slot : Slot) (c : NodeHandle) (s : Store) :
    (attach o slot c).apply s =
      match s.attachFault? o slot c with
      | some fault => (.error fault, s)
      | none => (.ok (), s.place o slot c) := by
  unfold attach
  rw [get_bind_apply]
  cases s.attachFault? o slot c <;> rfl

lemma createIn_apply (o : NodeHandle) (slot : Slot) (name : String) (content : Content)
    (s : Store) :
    (createIn o slot name content).apply s =
      match (s.create name content).2.attachFault? o slot s.nextHandle with
      | some fault => (.error fault, (s.create name content).2)
      | none => (.ok s.nextHandle, s.grown o slot name content) := by
  unfold createIn
  rw [apply_bind, create_apply]
  dsimp only
  rw [apply_bind, attach_apply]
  cases (s.create name content).2.attachFault? o slot s.nextHandle <;> rfl

/-- A new node is put into a slot of every node that has the slot.  It stays unowned otherwise. -/
lemma createIn_cases {s : Store} (hs : s.Sound) (o : NodeHandle) (slot : Slot)
    (hslot : slot.isComposition = true) (name : String) (content : Content) :
    s.Accepts o slot ∧
        (createIn o slot name content).apply s = (.ok s.nextHandle, s.grown o slot name content) ∨
      ¬ s.Accepts o slot ∧ ∃ fault,
        (createIn o slot name content).apply s = (.error fault, (s.create name content).2) := by
  have hiff := attachFault?_create hs (o := o) hslot name content
  rw [createIn_apply]
  cases hf : (s.create name content).2.attachFault? o slot s.nextHandle with
  | none => exact .inl ⟨hiff.1 hf, rfl⟩
  | some fault =>
    refine .inr ⟨fun ha => ?_, fault, rfl⟩
    rw [hiff.2 ha] at hf
    cases hf

lemma createIn_of_accepts {s : Store} (hs : s.Sound) {o : NodeHandle} {slot : Slot}
    (hslot : slot.isComposition = true) (ha : s.Accepts o slot) (name : String)
    (content : Content) :
    (createIn o slot name content).apply s = (.ok s.nextHandle, s.grown o slot name content) := by
  rcases createIn_cases hs o slot hslot name content with ⟨-, e⟩ | ⟨hn, -⟩
  · exact e
  · exact (hn ha).elim

end Edit

end Semdoc
