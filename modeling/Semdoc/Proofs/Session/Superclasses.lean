import Semdoc.Proofs.Session.Halfway
import Semdoc.Proofs.Session.Kinship

/-!
# Changes of superclasses

What a class inherits from can be seen in its content, in the slots of its superclass and in the content of its
attributes.  A change of superclass goes through all three, one after another, and cannot be refused on the way.
-/

namespace Semdoc

open Relation

namespace Store

variable {s t : Store}

/-! ## Views of what classes inherit from -/

lemma superclass?_eq (s : Store) (k : NodeHandle) :
    s.superclass? k = (s.content? k).bind Content.superclass? := by
  rw [superclass?, class?]
  cases s.content? k with
  | none => rfl
  | some c => cases c <;> rfl

lemma structParent?_eq (s : Store) (k : NodeHandle) :
    s.structParent? k = (s.content? k).bind Content.structParent? := by
  rw [structParent?, shape?]
  cases s.content? k with
  | none => rfl
  | some c =>
    cases c with
    | type shape => cases shape <;> rfl
    | _ => rfl

lemma attributesOf?_eq (s : Store) (k : NodeHandle) :
    s.attributesOf? k = (s.held k .descriptorAttributes).head? := by
  rw [attributesOf?, descriptorTokens?, content?, held]
  cases s.get? k with
  | none => rfl
  | some n =>
    simp only [Option.map_some, Option.getD_some, Option.bind_some, Node.held, Slot.isSingle, if_true]
    cases n.content <;> cases n.single <;> simp [Content.singleSlot?]

lemma attributesOf?_congr {k : NodeHandle}
    (h : t.held k .descriptorAttributes = s.held k .descriptorAttributes) :
    t.attributesOf? k = s.attributesOf? k := by
  rw [attributesOf?_eq, h, attributesOf?_eq]

lemma subclasses_eq (s : Store) (k : NodeHandle) : s.subclasses k = s.held k .classSubclasses :=
  listed_eq_held k rfl

lemma mem_held_of_attributesOf? {k a : NodeHandle} (h : s.attributesOf? k = some a) :
    a ∈ s.held k .descriptorAttributes := by
  rw [attributesOf?_eq] at h
  exact List.mem_of_mem_head? h

lemma Within.superclass?_of_sparing (h : Within sparingSuperclasses s t) (k : NodeHandle) :
    t.superclass? k = s.superclass? k := by
  have hsame : ∀ {c d}, ReflTransGen sparingSuperclasses.revises c d → d.superclass? = c.superclass? :=
    Scope.view_eq id
  rw [superclass?_eq, superclass?_eq]
  cases hk : s.content? k with
  | some c =>
    obtain ⟨d, hd, hcd⟩ := h.revised hk
    rw [hd]
    exact hsame hcd
  | none =>
    cases hd : t.content? k with
    | none => rfl
    | some d =>
      obtain ⟨c, hc, hcd⟩ := h.added hk hd
      exact (hsame hcd).trans hc

section Within

variable {slots : Slot → Prop}

lemma Within.superclass? (h : Within (kinScope slots) s t) (k : NodeHandle) :
    t.superclass? k = s.superclass? k :=
  Within.superclass?_of_sparing
    (h.mono (fun _ _ => trivial) (fun _ => id) fun _ _ hcd => hcd.superclass?) k

lemma Within.structParent? (h : Within (kinScope slots) s t) {k : NodeHandle}
    (hk : s.contains k = true) : t.structParent? k = s.structParent? k := by
  rw [contains_eq] at hk
  obtain ⟨c, hc⟩ := Option.isSome_iff_exists.1 hk
  obtain ⟨d, hd, hcd⟩ := h.revised hc
  rw [structParent?_eq, hd, structParent?_eq, hc]
  exact (Content.SameKin.of_reflTransGen hcd).structParent?

lemma Within.isA (h : Within (kinScope slots) s t) {k : NodeHandle} (hk : s.contains k = true)
    (type : TypeTag) : t.isA k type = s.isA k type := by
  rw [contains_eq] at hk
  obtain ⟨c, hc⟩ := Option.isSome_iff_exists.1 hk
  obtain ⟨d, hd, hcd⟩ := h.revised hc
  rw [isA_eq, hd, isA_eq, hc, Option.map_some, Option.map_some,
    (Content.SameKin.of_reflTransGen hcd).tag]

end Within

/-! ## New classes -/

/-- A new node is the last in its slot, or the only one. -/
lemma held_grown (hs : s.Sound) {o : NodeHandle} {slot : Slot} (ha : s.Accepts o slot)
    (hslot : slot.isComposition = true) (name : String) (content : Content) (k : NodeHandle) (sl : Slot) :
    (s.grown o slot name content).held k sl =
      if k = o ∧ sl = slot then (if slot.isSingle then [] else s.held o slot) ++ [s.nextHandle]
      else s.held k sl := by
  have hcreate := hs.create name content
  have hget := hs.intact.get?_create name content
  have hdetach : ((s.create name content).2.detach s.nextHandle).2 = (s.create name content).2 := by
    rw [detach, home?, hget, if_pos rfl]
    rfl
  have ha' : (s.create name content).2.Accepts o slot := by
    obtain ⟨n, hn, hacc⟩ := ha
    exact ⟨n, by rw [hget, if_neg (ne_nextHandle hs.intact (contains_iff.2 ⟨n, hn⟩)), hn], hacc⟩
  rw [grown, place_eq, if_pos hslot, hdetach, (SameNodes.invalidate _ o).held,
    held_link hcreate.shaped ha']
  simp only [hs.intact.held_create]

/-- A class gets new attributes, which inherit from nothing. -/
lemma attributesOf?_grown (hs : s.Sound) {h : NodeHandle} (ha : s.Accepts h .descriptorAttributes)
    (name : String) (content : Content) (k : NodeHandle) :
    (s.grown h .descriptorAttributes name content).attributesOf? k =
      if k = h then some s.nextHandle else s.attributesOf? k := by
  rw [attributesOf?_eq, held_grown hs ha rfl, attributesOf?_eq]
  by_cases hk : k = h <;> simp [hk, Slot.isSingle]

/-! ## Changes of superclasses -/

lemma held_removeFrom (hs : s.Shaped) (o : NodeHandle) (slot : Slot) (c k : NodeHandle) (sl : Slot) :
    (s.removeFrom o slot c).2.held k sl =
      if k = o ∧ sl = slot then (s.held o slot).erase c else s.held k sl := by
  by_cases hc : c ∈ s.held o slot
  · rw [removeFrom_of_mem hc]
    exact ((SameNodes.invalidate _ o).held k sl).trans (held_unlink k hs hc sl)
  · rw [removeFrom_of_not_mem hc, List.erase_of_not_mem hc]
    split
    · next e => rw [e.1, e.2]
    · rfl

/-- A node that is referred to is put at the end of a slot. -/
lemma held_place_of_reference (hs : s.Shaped) {o : NodeHandle} {slot : Slot}
    (hslot : slot.isComposition = false) (ha : s.Accepts o slot) (c k : NodeHandle) (sl : Slot) :
    (s.place o slot c).held k sl =
      if k = o ∧ sl = slot then s.held o slot ++ [c] else s.held k sl := by
  have hsingle : slot.isSingle = false := by
    rw [← Bool.not_eq_true]
    intro h
    rw [Slot.isComposition_of_isSingle h] at hslot
    cases hslot
  rw [place_eq, if_neg (by simp [hslot]), (SameNodes.invalidate _ o).held, held_link hs ha, hsingle,
    if_neg Bool.false_ne_true]

/-- A class has another superclass, and its attributes inherit from those of that. -/
structure Reclassed (s t : Store) (h : NodeHandle) (superclass : Option NodeHandle) : Prop where
  superclass? : ∀ k, t.superclass? k = if k = h then superclass else s.superclass? k
  structParent? : ∀ a, t.structParent? a =
    if s.attributesOf? h = some a then superclass.bind s.attributesOf? else s.structParent? a
  isA : ∀ k type, t.isA k type = s.isA k type
  held : ∀ {sl}, sl ≠ .classSubclasses → ∀ k, t.held k sl = s.held k sl
  subclasses : ∀ p, t.subclasses p =
    (if s.superclass? h = some p then (s.subclasses p).erase h else s.subclasses p) ++
      if superclass = some p then [h] else []

/-- Classes are listed once at their superclasses, and nowhere else. -/
def Enlisted (s : Store) : Prop :=
  ∀ c p, (s.subclasses p).count c = if s.superclass? c = some p then 1 else 0

lemma Enlisted.reclass (hl : s.Enlisted) {h : NodeHandle} {superclass : Option NodeHandle}
    (hr : Reclassed s t h superclass) : t.Enlisted := by
  intro c p
  have hcount := hl c p
  rw [hr.subclasses, List.count_append, hr.superclass?]
  by_cases hch : c = h
  · subst hch
    -- it has been listed at its superclass only, and once
    by_cases hprev : s.superclass? c = some p
    · rw [if_pos hprev] at hcount
      rw [if_pos hprev, List.count_erase_self, hcount, if_pos rfl]
      split <;> simp
    · rw [if_neg hprev] at hcount
      rw [if_neg hprev, hcount, if_pos rfl]
      split <;> simp
  · have hrest : (if superclass = some p then [h] else []).count c = 0 := by
      split <;> simp [Ne.symm hch]
    rw [hrest, if_neg hch, ← hcount, Nat.add_zero]
    split
    · exact List.count_erase_of_ne hch
    · rfl

end Store

namespace Edit

open Store

variable {α β : Type} {s : Store}

lemma apply_bind_of_ok {e : Edit α} {a : α} {t : Store} (h : e.apply s = (.ok a, t)) (f : α → Edit β) :
    (e >>= f).apply s = (f a).apply t := by
  rw [apply_bind, h]

/-- What a change of content that is not refused does. -/
lemma revise_views {h : NodeHandle} {f : Content → Option Content} {c d : Content}
    (hc : s.content? h = some c) (hd : f c = some d) (hslots : c.SameSlots d) (fault : EditFault) :
    ∃ t, (revise h fault f).apply s = (.ok (), t) ∧
      (∀ k, t.content? k = if k = h then some d else s.content? k) ∧
      ∀ k sl, t.held k sl = s.held k sl := by
  have hi := SameNodes.invalidate s h
  have hci := (SameContents.of_sameNodes hi).content?
  refine ⟨_, by rw [revise_apply, hci, hc, Option.bind_some, hd], fun k => ?_, fun k sl => ?_⟩
  · rw [content?_modify _ h k fun _ => d, hci, hci, hc]
    rfl
  · rw [← hi.held k sl]
    refine held_revised (f := fun _ => d) (fun c' hc' => ?_) k sl
    rw [hci, hc] at hc'
    cases hc'
    exact hslots

/-- What a change of content that is refused does. -/
lemma revise_of_none {h : NodeHandle} {f : Content → Option Content}
    (hd : (s.content? h).bind f = none) (fault : EditFault) :
    (revise h fault f).apply s = (.error fault, s.invalidate h) := by
  rw [revise_apply, (SameContents.invalidate s h).content?, hd]

lemma reviseClass_views {h : NodeHandle} {c : ClassContent} (hc : s.class? h = some c)
    (f : ClassContent → ClassContent) :
    ∃ t, (reviseClass h f).apply s = (.ok (), t) ∧
      (∀ k, t.content? k = if k = h then some (.structuredClass (f c)) else s.content? k) ∧
      ∀ k sl, t.held k sl = s.held k sl := by
  refine revise_views (content?_of_class? hc) (?_ : _ = some (.structuredClass (f c)))
    ⟨rfl, rfl, rfl⟩ _
  rfl

lemma reviseField_views {h : NodeHandle} {c : FieldContent}
    (hc : s.content? h = some (.fieldDescriptor c)) (f : FieldContent → FieldContent) :
    ∃ t, (reviseField h f).apply s = (.ok (), t) ∧
      (∀ k, t.content? k = if k = h then some (.fieldDescriptor (f c)) else s.content? k) ∧
      ∀ k sl, t.held k sl = s.held k sl := by
  refine revise_views hc (?_ : _ = some (.fieldDescriptor (f c))) ⟨rfl, rfl, rfl⟩ _
  rfl

lemma reviseField_of_not_field {h : NodeHandle} (hc : ∀ c, s.content? h ≠ some (.fieldDescriptor c))
    (f : FieldContent → FieldContent) :
    (reviseField h f).apply s = (.error .fieldExpected, s.invalidate h) := by
  refine revise_of_none ?_ _
  cases hf : s.content? h with
  | none => rfl
  | some c => cases c <;> first | rfl | exact (hc _ hf).elim

lemma setStructParent_views {type : NodeHandle} {p : Option NodeHandle}
    (hc : s.content? type = some (.type (.struct p))) (parent : Option NodeHandle) :
    ∃ t, (setStructParent type parent).apply s = (.ok (), t) ∧
      (∀ k, t.content? k = if k = type then some (.type (.struct parent)) else s.content? k) ∧
      ∀ k sl, t.held k sl = s.held k sl := by
  refine revise_views hc (?_ : _ = some (.type (.struct parent))) ⟨rfl, rfl, rfl⟩ _
  rfl

/-- A class is struck out of the subclasses of its superclass. -/
def strikeSubclass (h : NodeHandle) (previous : Option NodeHandle) (s : Store) : Store :=
  previous.elim s fun p => (s.removeFrom p .classSubclasses h).2

/-- A class is listed among the subclasses of another one. -/
def enlistSubclass (h : NodeHandle) : Option NodeHandle → Edit Unit
  | some sup => attach sup .classSubclasses h
  | none => pure ()

lemma changeSuperclass_apply (h : NodeHandle) (previous superclass : Option NodeHandle) (s : Store) :
    (changeSuperclass h previous superclass).apply s =
      (do
        reviseClass h fun c => { c with superclass }
        enlistSubclass h superclass
        inheritAttributes h superclass).apply (strikeSubclass h previous s) := by
  cases previous <;> cases superclass <;> rfl

lemma changes_strikeSubclass (h : NodeHandle) (previous : Option NodeHandle) (s : Store) :
    Changes s (strikeSubclass h previous s) := by
  cases previous with
  | none => exact .refl
  | some p => exact .single (.remove p .classSubclasses h)

lemma content?_strikeSubclass (h : NodeHandle) (previous : Option NodeHandle) (s : Store)
    (k : NodeHandle) : (strikeSubclass h previous s).content? k = s.content? k := by
  cases previous with
  | none => rfl
  | some p => exact (SameContents.removeFrom s p .classSubclasses h).content? k

lemma held_strikeSubclass (hs : s.Shaped) (h : NodeHandle) (previous : Option NodeHandle)
    (k : NodeHandle) (sl : Slot) :
    (strikeSubclass h previous s).held k sl =
      if previous = some k ∧ sl = .classSubclasses then (s.held k sl).erase h else s.held k sl := by
  cases previous with
  | none => rfl
  | some p =>
    rw [strikeSubclass, Option.elim_some, held_removeFrom hs]
    by_cases hk : k = p ∧ sl = .classSubclasses
    · rw [if_pos hk, if_pos ⟨congrArg some hk.1.symm, hk.2⟩, hk.1, hk.2]
    · rw [if_neg hk, if_neg fun e => hk ⟨(Option.some.inj e.1).symm, e.2⟩]

/-- A class can be listed among the subclasses of every class. -/
lemma enlistSubclass_views (hs : s.Sound) {h : NodeHandle} (hh : s.contains h = true)
    {superclass : Option NodeHandle}
    (hsup : ∀ sup, superclass = some sup → s.isA sup .structuredClass = true) :
    ∃ t, (enlistSubclass h superclass).apply s = (.ok (), t) ∧
      (∀ k, t.content? k = s.content? k) ∧
      ∀ k sl, t.held k sl = if superclass = some k ∧ sl = .classSubclasses then s.held k sl ++ [h]
        else s.held k sl := by
  cases superclass with
  | none => exact ⟨s, rfl, fun _ => rfl, fun _ _ => rfl⟩
  | some sup =>
    obtain ⟨c, hc⟩ := Option.isSome_iff_exists.1 (isSome_class?_iff.2 (hsup sup rfl))
    have ha : s.Accepts sup .classSubclasses :=
      (accepts_iff_content? hs.shaped rfl rfl sup).2
        ⟨_, content?_of_class? hc, by simp [Content.listSlots]⟩
    refine ⟨s.place sup .classSubclasses h, ?_, (SameContents.place s _ _ _).content?, fun k sl => ?_⟩
    · rw [enlistSubclass, attach_apply, attachFault?_of_reference rfl ha hh]
    · rw [held_place_of_reference hs.shaped rfl ha]
      by_cases hk : k = sup ∧ sl = .classSubclasses
      · rw [if_pos hk, if_pos ⟨congrArg some hk.1.symm, hk.2⟩, hk.1, hk.2]
      · rw [if_neg hk, if_neg fun e => hk ⟨(Option.some.inj e.1).symm, e.2⟩]

/-- The attributes of a class inherit from those of another one, if both have attributes. -/
lemma inheritAttributes_views (hs : s.Sound) (ho : s.Sorted) (h : NodeHandle)
    (superclass : Option NodeHandle) :
    ∃ t, (inheritAttributes h superclass).apply s = (.ok (), t) ∧
      (∀ k, t.content? k =
        if s.attributesOf? h = some k then some (.type (.struct (superclass.bind s.attributesOf?)))
        else s.content? k) ∧
      ∀ k sl, t.held k sl = s.held k sl := by
  rw [inheritAttributes, get_bind_apply]
  cases ha : s.attributesOf? h with
  | none => exact ⟨s, rfl, fun k => by simp, fun _ _ => rfl⟩
  | some a =>
    obtain ⟨parent, hc⟩ := ho.exists_struct hs ha
    obtain ⟨t, e, hcontent, hheld⟩ := setStructParent_views hc (superclass.bind s.attributesOf?)
    refine ⟨t, e, fun k => ?_, hheld⟩
    rw [hcontent]
    simp only [Option.some.injEq, @eq_comm _ a k]

/-- The last step of a change of superclass is taken in a store in which the class names its superclass and is
listed there. -/
lemma changeSuperclass_relists (hs : s.Sound) {h : NodeHandle} {c : ClassContent}
    (hc : s.class? h = some c) {superclass : Option NodeHandle}
    (hsup : ∀ sup, superclass = some sup → s.isA sup .structuredClass = true) :
    ∃ t, (changeSuperclass h c.superclass superclass).apply s = (inheritAttributes h superclass).apply t ∧
      Changes s t ∧
      (∀ k, t.content? k =
        if k = h then some (.structuredClass { c with superclass }) else s.content? k) ∧
      (∀ {sl}, sl ≠ .classSubclasses → ∀ k, t.held k sl = s.held k sl) ∧
      ∀ p, t.held p .classSubclasses =
        (if c.superclass = some p then (s.held p .classSubclasses).erase h
          else s.held p .classSubclasses) ++ if superclass = some p then [h] else [] := by
  have hcontent := content?_of_class? hc
  -- the class leaves the subclasses of its superclass
  have hch := changes_strikeSubclass h c.superclass s
  have hc₁ := content?_strikeSubclass h c.superclass s
  have hh₁ := held_strikeSubclass hs.shaped h c.superclass
  have e := changeSuperclass_apply h c.superclass superclass s
  generalize strikeSubclass h c.superclass s = s₁ at hch hc₁ hh₁ e
  -- it gets the other superclass
  have hch₂ := makes_reviseClass h (fun c => { c with superclass }) s₁ (hs.changes hch)
  have hclass : s₁.class? h = some c := by rw [class?, hc₁, hcontent]
  obtain ⟨s₂, e₂, hc₂, hh₂⟩ := reviseClass_views hclass fun c => { c with superclass }
  rw [e₂] at hch₂
  replace hch := hch.trans hch₂
  have hlive : s₂.contains h = true := by
    rw [contains_eq, hc₂, if_pos rfl]
    rfl
  have hsup₂ : ∀ sup, superclass = some sup → s₂.isA sup .structuredClass = true := by
    intro sup hs'
    rw [isA_eq, hc₂]
    split
    · rfl
    · rw [hc₁, ← isA_eq]
      exact hsup sup hs'
  -- it is listed there
  have hch₃ : Changes s₂ ((enlistSubclass h superclass).apply s₂).2 := by
    cases superclass with
    | none => exact .refl
    | some sup => exact makes_attach rfl s₂ (hs.changes hch)
  obtain ⟨s₃, e₃, hc₃, hh₃⟩ := enlistSubclass_views (hs.changes hch) hlive hsup₂
  rw [e₃] at hch₃
  refine ⟨s₃, ?_, hch.trans hch₃, fun k => ?_, fun hsl k => ?_, fun p => ?_⟩
  · rw [e, apply_bind_of_ok e₂, apply_bind_of_ok e₃]
  · rw [hc₃, hc₂, hc₁]
  · rw [hh₃, if_neg fun e => hsl e.2, hh₂, hh₁, if_neg fun e => hsl e.2]
  · rw [hh₃, hh₂, hh₁]
    by_cases hp : superclass = some p <;> simp [hp]

/-- A class that is changed to another superclass is so as a whole. -/
lemma changeSuperclass_reclasses (hs : s.Sound) (ho : s.Sorted) {h : NodeHandle} {c : ClassContent}
    (hc : s.class? h = some c) {superclass : Option NodeHandle}
    (hsup : ∀ sup, superclass = some sup → s.isA sup .structuredClass = true) :
    ∃ t, (changeSuperclass h c.superclass superclass).apply s = (.ok (), t) ∧
      Reclassed s t h superclass := by
  obtain ⟨u, e, hch, hcu, hhu, hsubs⟩ := changeSuperclass_relists hs hc hsup
  obtain ⟨t, e', hct, hht⟩ :=
    inheritAttributes_views (hs.changes hch) (ho.changes hs hch) h superclass
  have hattr : u.attributesOf? = s.attributesOf? :=
    funext fun k => attributesOf?_congr (hhu (by decide) k)
  rw [hattr] at hct
  -- the attributes are those of a struct type, which the class is not
  have hstruct : ∀ {a}, s.attributesOf? h = some a → ∃ p, s.content? a = some (.type (.struct p)) :=
    fun ha => ho.exists_struct hs ha
  have hcontent := content?_of_class? hc
  have hne : s.attributesOf? h ≠ some h := by
    intro ha
    obtain ⟨p, hp⟩ := hstruct ha
    rw [hcontent] at hp
    cases hp
  refine ⟨t, by rw [e, e'], fun k => ?_, fun a => ?_, fun k type => ?_, fun hsl k => ?_, fun p => ?_⟩
  · rw [superclass?_eq, hct, superclass?_eq, hcu]
    by_cases hk : k = h
    · rw [hk, if_neg hne, if_pos rfl, if_pos rfl]
      rfl
    · rw [if_neg hk, if_neg hk]
      split
      · next ha =>
        obtain ⟨p, hp⟩ := hstruct ha
        rw [hp]
        rfl
      · rfl
  · rw [structParent?_eq, hct, structParent?_eq, hcu]
    split
    · rfl
    · split
      · next ha => rw [ha, hcontent]; rfl
      · rfl
  · rw [isA_eq, hct, isA_eq, hcu]
    split
    · next ha =>
      obtain ⟨p, hp⟩ := hstruct ha
      rw [hp]
      rfl
    · split
      · next hk => rw [hk, hcontent]; rfl
      · rfl
  · rw [hht, hhu hsl]
  · rw [subclasses_eq, hht, hsubs, subclasses_eq, superclass?, hc]
    rfl

end Edit

end Semdoc
