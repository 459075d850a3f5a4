import Semdoc.Proofs.Session.Anchors

/-!
# Edits that are refused

Most edits look at all that could go wrong before they change what is there; some have added a node by then
that nothing leads to.  When an edit like that is refused, everything is left as it was but for marks.  Changing a
superclass takes more steps, of which none but the first can go wrong.
-/

namespace Semdoc

open Store

namespace Store

variable {s t u : Store}

/-- What is in a store is left in another one as it is, but for marks. -/
def Keeps (s t : Store) : Prop :=
  ∀ h n, s.get? h = some n → ∃ m, t.get? h = some m ∧ m.unmarked = n.unmarked

namespace Keeps

lemma refl (s : Store) : Keeps s s := fun _ n hn => ⟨n, hn, rfl⟩

lemma trans (h : Keeps s t) (h' : Keeps t u) : Keeps s u := by
  intro k n hn
  obtain ⟨m, hm, e⟩ := h k n hn
  obtain ⟨l, hl, e'⟩ := h' k m hm
  exact ⟨l, hl, e'.trans e⟩

lemma of_sameNodes (h : SameNodes s t) : Keeps s t := by
  intro k n hn
  have e := h.get? k
  rwa [hn, Option.map_some, Option.map_eq_some_iff] at e

lemma create (hs : s.Intact) (name : String) (content : Content) :
    Keeps s (s.create name content).2 := by
  intro k n hn
  refine ⟨n, ?_, rfl⟩
  rwa [hs.get?_create, if_neg (ne_nextHandle hs (contains_iff.2 ⟨n, hn⟩))]

end Keeps

lemma Sorted.changes (ho : s.Sorted) (hs : s.Sound) (h : Changes s t) : t.Sorted :=
  (h.keep (fun _ _ hs ho h => ho.change hs h) hs ho).2

/-- What is put into a slot that does not own is not looked at any further. -/
lemma attachFault?_of_reference {o c : NodeHandle} {slot : Slot}
    (hslot : slot.isComposition = false) (ha : s.Accepts o slot) (hc : s.contains c = true) :
    s.attachFault? o slot c = none := by
  obtain ⟨n, hn, ha⟩ := ha
  rw [attachFault?, hn]
  simp [hc, ha, hslot]

lemma isSome_class?_iff {k : NodeHandle} :
    (s.class? k).isSome = true ↔ s.isA k .structuredClass = true := by
  rw [isA_iff_content? (by decide), class?]
  cases s.content? k with
  | none => simp
  | some c =>
    cases c with
    | typesystem b => cases b <;> simp [Content.tag]
    | type shape => cases shape <;> simp [Content.tag, TypeShape.tag]
    | _ => simp [Content.tag]

lemma content?_of_class? {k : NodeHandle} {c : ClassContent} (h : s.class? k = some c) :
    s.content? k = some (.structuredClass c) := by
  unfold class? at h
  split at h
  · next hc => rw [hc, Option.some.inj h]
  · cases h

/-- The attributes of a class are those of a struct type. -/
lemma Sorted.exists_struct (ho : s.Sorted) (hs : s.Sound) {d a : NodeHandle}
    (h : s.attributesOf? d = some a) : ∃ parent, s.content? a = some (.type (.struct parent)) := by
  unfold attributesOf? at h
  split at h
  · next htokens =>
    obtain ⟨n, hn, hsingle⟩ := Option.bind_eq_some_iff.1 h
    have hslot : n.content.singleSlot? = some .descriptorAttributes := by
      rw [descriptorTokens?, content?, hn, Option.map_some] at htokens
      cases hc : n.content <;> simp_all [Content.singleSlot?]
    have hheld : a ∈ s.held d .descriptorAttributes := by
      rw [held_of_get? hn]
      simp [Node.held, Slot.isSingle, hslot, hsingle]
    have hfit : s.isA a .structType = true := ho.fits (hs.home_of_held rfl hheld) rfl
    obtain ⟨c, hc, htag⟩ := (isA_iff_content? (by decide)).1 hfit
    cases c with
    | type shape =>
      cases shape with
      | struct parent => exact ⟨parent, hc⟩
      | _ => cases htag
    | typesystem b => cases b <;> cases htag
    | _ => cases htag
  · cases h

end Store

namespace Edit

variable {α β : Type}

/-! ## Edits that only add -/

/-- An edit leaves what is in the store as it is, whether it succeeds or is refused. -/
structure Adds (e : Edit α) : Prop where
  makes : e.Makes
  keeps : ∀ s : Store, s.Sound → Keeps s (e.apply s).2

lemma adds_create (name : String) {content : Content} (he : content.endpoints = []) :
    (create name content).Adds :=
  ⟨makes_create name content he, fun _ hs => .create hs.intact name content⟩

lemma adds_demand (f : Store → Except EditFault α) : (demand f).Adds := by
  refine ⟨makes_demand f, fun s _ => ?_⟩
  rw [demand_apply]
  exact .refl s

lemma adds_createEntity (descriptor : NodeHandle) (attributes : Option Value) (name : String) :
    (createEntity descriptor attributes name).Adds := by
  refine ⟨makes_createEntity _ _ _, fun s hs => ?_⟩
  unfold createEntity
  rw [get_bind_apply]
  split
  · exact .refl s
  · exact .create hs.intact name _

/-! ## Edits that are refused in time -/

/-- An edit that is refused leaves what is in the store as it is. -/
def Careful (e : Edit α) : Prop :=
  ∀ s t : Store, s.Sound → s.Sorted → ∀ fault, e.apply s = (.error fault, t) → Keeps s t

/-- An edit that is never refused. -/
def Sure (e : Edit α) : Prop := ∀ s : Store, ∃ a t, e.apply s = (.ok a, t)

namespace Careful

lemma of_sure {e : Edit α} (he : e.Sure) : e.Careful := by
  intro s t _ _ fault h
  obtain ⟨a, u, e⟩ := he s
  rw [e] at h
  cases h

lemma pure (a : α) : Careful (Pure.pure a : Edit α) := of_sure fun s => ⟨a, s, rfl⟩

lemma throw (f : EditFault) : Careful (throw f : Edit α) := by
  intro s t _ _ fault h
  cases h
  exact .refl s

lemma get_bind {f : Store → Edit β} (hf : ∀ s, (f s).Careful) :
    Careful ((get : Edit Store) >>= f) := by
  intro s t hs ho fault h
  rw [get_bind_apply] at h
  exact hf s s t hs ho fault h

/-- A demand before the rest of an edit. -/
lemma guard {c : Prop} [Decidable c] {f : EditFault} {rest : Edit β} (h : rest.Careful) :
    Careful (if c then (do MonadExcept.throw f; rest) else rest) := by
  split
  · exact throw f
  · exact h

lemma bind_adds {e : Edit α} {f : α → Edit β} (he : e.Adds) (hf : ∀ a, (f a).Careful) :
    (e >>= f).Careful := by
  intro s t hs ho fault h
  have hm := he.makes s hs
  have hk := he.keeps s hs
  rw [apply_bind] at h
  split at h
  · next a u hu =>
    rw [hu] at hm hk
    exact hk.trans (hf a u t (hs.changes hm) (ho.changes hs hm) fault h)
  · next x u hu =>
    rw [hu] at hk
    cases h
    exact hk

lemma bind_sure {e : Edit α} {f : α → Edit β} (he : e.Careful) (hf : ∀ a, (f a).Sure) :
    (e >>= f).Careful := by
  intro s t hs ho fault h
  rw [apply_bind] at h
  split at h
  · next a u hu =>
    obtain ⟨b, v, e⟩ := hf a u
    rw [e] at h
    cases h
  · next x u hu =>
    cases h
    exact he s _ hs ho _ hu

end Careful

lemma careful_attach (o : NodeHandle) (slot : Slot) (c : NodeHandle) : (attach o slot c).Careful := by
  intro s t _ _ fault h
  rw [attach_apply] at h
  split at h
  · cases h
    exact .refl s
  · cases h

/-- A change that is refused has cleared marks. -/
lemma careful_revise (h : NodeHandle) (fault : EditFault) (f : Content → Option Content) :
    (revise h fault f).Careful := by
  intro s t _ _ x e
  rw [revise_apply] at e
  split at e
  · cases e
  · cases e
    exact .of_sameNodes (.invalidate s h)

/-- A new node that cannot be put into its slot is left where nothing leads to it. -/
lemma careful_createIn (o : NodeHandle) (slot : Slot) (name : String) {content : Content}
    (he : content.endpoints = []) : (createIn o slot name content).Careful :=
  .bind_adds (adds_create name he) fun h =>
    .bind_sure (careful_attach o slot h) fun _ s => ⟨h, s, rfl⟩

lemma careful_createArrayType (ts inner : NodeHandle) : (createArrayType ts inner).Careful := by
  refine .get_bind fun s => ?_
  dsimp only
  split
  · exact .pure _
  · exact careful_createIn _ _ _ rfl

lemma careful_addField (descriptor field : NodeHandle) : (addField descriptor field).Careful := by
  intro s t _ _ fault h
  rcases addField_apply descriptor field s with ⟨x, e⟩ | ⟨-, -, e⟩
  · rw [e] at h
    cases h
    exact .refl s
  · rw [e] at h
    cases h

lemma careful_createField (descriptor : NodeHandle) (type : FieldType) (name : String)
    (optional : Bool) (primitiveType : Option NodeHandle) :
    (createField descriptor type name optional primitiveType).Careful :=
  .bind_adds (adds_create _ rfl) fun h =>
    .bind_sure (careful_addField descriptor h) fun _ s => ⟨h, s, rfl⟩

lemma careful_moveField (descriptor field : NodeHandle) : (moveField descriptor field).Careful := by
  refine .get_bind fun s => .bind_sure (careful_addField descriptor field) fun _ t => ?_
  split <;> exact ⟨_, _, rfl⟩

lemma careful_addChildClass (field h : NodeHandle) : (addChildClass field h).Careful := by
  refine .get_bind fun s => .guard ?_
  split
  · exact careful_attach _ _ _
  · exact .pure _

lemma careful_setFieldType (field : NodeHandle) (type : FieldType) :
    (setFieldType field type).Careful := by
  refine .bind_sure (careful_revise _ _ _) fun _ s => ?_
  rw [get_bind_apply]
  split <;> exact ⟨_, _, rfl⟩

lemma careful_createRoot (document descriptor : NodeHandle) (attributes : Option Value)
    (name : String) : (createRoot document descriptor attributes name).Careful :=
  .bind_adds (adds_createEntity _ _ _) fun h =>
    .bind_sure (careful_attach document .documentRoot h) fun _ s => ⟨h, s, rfl⟩

lemma careful_addStructureNode (entity h : NodeHandle) (number : Nat) :
    (addStructureNode entity h number).Careful := by
  refine .get_bind fun s => .guard (.bind_adds (adds_demand _) fun descriptor => ?_)
  exact .guard (careful_attach _ _ _)

lemma careful_createChild (parent descriptor : NodeHandle) (attributes : Option Value)
    (field name : String) : (createChild parent descriptor attributes field name).Careful :=
  .bind_adds (adds_demand _) fun number => .bind_adds (adds_createEntity _ _ _) fun h =>
    .bind_sure (careful_addStructureNode parent h number) fun _ s => ⟨h, s, rfl⟩

lemma careful_createPrimitive (parent : NodeHandle) (v : Value) (field : String) :
    (createPrimitive parent v field).Careful :=
  .bind_adds (adds_demand _) fun number => .bind_adds (adds_create _ rfl) fun h =>
    .bind_sure (careful_addStructureNode parent h number) fun _ s => ⟨h, s, rfl⟩

lemma careful_createAnchor (parent : NodeHandle) (field : String) :
    (createAnchor parent field).Careful :=
  .bind_adds (adds_demand _) fun number => .bind_adds (adds_create _ rfl) fun h =>
    .bind_sure (careful_addStructureNode parent h number) fun _ s => ⟨h, s, rfl⟩

lemma careful_bindAnchor (mark anchor : NodeHandle) (which : Endpoint) :
    (bindAnchor mark anchor which).Careful := by
  intro s t _ _ fault h
  rw [bindAnchor_apply] at h
  split_ifs at h
  all_goals cases h
  · exact .of_sameNodes (.invalidate s mark)
  · exact .refl s

lemma careful_createProjectDocument (project : NodeHandle) (name : String) :
    (createProjectDocument project name).Careful :=
  .bind_adds (adds_create _ rfl) fun h =>
    .bind_sure (careful_attach project .projectDocuments h) fun _ s => ⟨h, s, rfl⟩

/-! ## Edits that succeed -/

/-- From every proper store of which something holds an edit succeeds, and it holds afterwards. -/
def Runs (P : Store → Prop) (e : Edit α) : Prop :=
  ∀ s : Store, s.Sound → s.Sorted → P s → ∃ a t, e.apply s = (.ok a, t) ∧ P t

namespace Runs

variable {P : Store → Prop}

lemma pure (a : α) : Runs P (Pure.pure a : Edit α) := fun s _ _ hP => ⟨a, s, rfl, hP⟩

lemma modify {f : Store → Store} (hf : ∀ s, P s → P (f s)) : Runs P (modify f : Edit PUnit) :=
  fun s _ _ hP => ⟨_, f s, rfl, hf s hP⟩

lemma bind {e : Edit α} {f : α → Edit β} (he : Runs P e) (hm : e.Makes) (hf : ∀ a, Runs P (f a)) :
    Runs P (e >>= f) := by
  intro s hs ho hP
  obtain ⟨a, t, e', hP'⟩ := he s hs ho hP
  have hc := hm s hs
  rw [e'] at hc
  rw [apply_bind, e']
  exact hf a t (hs.changes hc) (ho.changes hs hc) hP'

end Runs

/-- A typesystem takes types. -/
lemma runs_createType (ts : NodeHandle) (name : String) (shape : TypeShape) :
    Runs (fun s => ∃ c, s.content? ts = some c ∧ .typesystemTypes ∈ c.listSlots)
      (createType ts name shape) := by
  rintro s hs - ⟨c, hc, hslot⟩
  have ha := (accepts_iff_content? hs.shaped rfl rfl ts).2 ⟨c, hc, hslot⟩
  refine ⟨_, _, createIn_of_accepts hs rfl ha name _, c, ?_, hslot⟩
  have hlive : s.contains ts = true := by rw [contains_eq, hc]; rfl
  rw [content?_grown hs.intact, if_neg (ne_nextHandle hs.intact hlive), hc]

/-- The basic types can always be created. -/
lemma careful_createSystemTypesystem : createSystemTypesystem.Careful := by
  intro s t hs ho fault h
  have hcontent := content?_create hs.intact "system" (.typesystem true) s.nextHandle
  have hmakes := makes_create "system" (.typesystem true) rfl s hs
  unfold createSystemTypesystem at h
  rw [create_apply] at hmakes
  rw [apply_bind, create_apply] at h
  rw [if_pos rfl] at hcontent
  have htypes (ts : NodeHandle) := Runs.bind (runs_createType ts "string" .string)
    (makes_createType _ _ _) fun _ => .bind (runs_createType ts "int" .int)
    (makes_createType _ _ _) fun _ => .bind (runs_createType ts "double" .double)
    (makes_createType _ _ _) fun _ => .bind (runs_createType ts "bool" .bool)
    (makes_createType _ _ _) fun _ => .pure ts
  obtain ⟨a, u, e, -⟩ := htypes s.nextHandle _ (hs.changes hmakes) (ho.changes hs hmakes)
    ⟨_, hcontent, List.mem_cons_self⟩
  dsimp only at h
  rw [e] at h
  cases h

lemma careful_createProject : createProject.Careful :=
  .bind_sure careful_createSystemTypesystem fun _ _ => ⟨_, _, rfl⟩

/-! ## Superclasses -/

/-- Some nodes are structured classes. -/
def Classes (ks : List NodeHandle) (s : Store) : Prop := ∀ k ∈ ks, s.isA k .structuredClass = true

lemma Classes.of_isA {ks : List NodeHandle} {s t : Store} (hs : Classes ks s)
    (h : ∀ k type, t.isA k type = s.isA k type) : Classes ks t :=
  fun k hk => (h k _).trans (hs k hk)

/-- A change that does not refuse the content of a node leaves the node of its kind. -/
lemma revise_of_some {s : Store} {h : NodeHandle} {c d : Content} (f : Content → Option Content)
    (hc : s.content? h = some c) (hd : f c = some d) (htag : d.tag = c.tag) (fault : EditFault) :
    ∃ t, (revise h fault f).apply s = (.ok (), t) ∧ ∀ k type, t.isA k type = s.isA k type := by
  have hi := SameContents.invalidate s h
  rw [revise_apply, hi.content?, hc, Option.bind_some, hd]
  refine ⟨_, rfl, fun k type => ?_⟩
  rw [isA_eq, content?_modify _ h k fun _ => d, hi.content?, hi.content?, isA_eq]
  split
  · next e => rw [e, hc, Option.map_some, Option.map_some, Option.map_some, htag]
  · rfl

section Superclass

variable {h : NodeHandle} {superclass : Option NodeHandle}

lemma reviseClass_of_class {s : Store} {c : ClassContent} (hc : s.class? h = some c)
    (f : ClassContent → ClassContent) :
    ∃ t, (reviseClass h f).apply s = (.ok (), t) ∧ ∀ k type, t.isA k type = s.isA k type := by
  refine revise_of_some _ (content?_of_class? hc) (?_ : _ = some (.structuredClass (f c))) ?_ _ <;> rfl

lemma setStructParent_of_struct {s : Store} {a : NodeHandle} {parent : Option NodeHandle}
    (hc : s.content? a = some (.type (.struct parent))) (parent' : Option NodeHandle) :
    ∃ t, (setStructParent a parent').apply s = (.ok (), t) ∧ ∀ k type, t.isA k type = s.isA k type := by
  refine revise_of_some _ hc (?_ : _ = some (.type (.struct parent'))) ?_ _ <;> rfl

lemma runs_reviseClass {ks : List NodeHandle} (hh : h ∈ ks) (f : ClassContent → ClassContent) :
    Runs (Classes ks) (reviseClass h f) := by
  intro s _ _ hP
  obtain ⟨c, hc⟩ := Option.isSome_iff_exists.1 (isSome_class?_iff.2 (hP h hh))
  obtain ⟨t, e, ht⟩ := reviseClass_of_class hc f
  exact ⟨_, t, e, hP.of_isA ht⟩

lemma runs_removeFrom {ks : List NodeHandle} (o : NodeHandle) (slot : Slot) (c : NodeHandle) :
    Runs (Classes ks) (modify fun s => (s.removeFrom o slot c).2) :=
  .modify fun s hP => hP.of_isA (SameContents.removeFrom s o slot c).isA

/-- A class can be listed among the subclasses of every class. -/
lemma runs_attachSubclass {ks : List NodeHandle} {sup : NodeHandle} (hh : h ∈ ks) (hsup : sup ∈ ks) :
    Runs (Classes ks) (attach sup .classSubclasses h) := by
  intro s hs _ hP
  obtain ⟨c, hc⟩ := Option.isSome_iff_exists.1 (isSome_class?_iff.2 (hP sup hsup))
  have ha : s.Accepts sup .classSubclasses :=
    (accepts_iff_content? hs.shaped rfl rfl sup).2 ⟨_, content?_of_class? hc, by simp [Content.listSlots]⟩
  refine ⟨(), s.place sup .classSubclasses h, ?_, hP.of_isA (SameContents.place s _ _ _).isA⟩
  rw [attach_apply, attachFault?_of_reference rfl ha (contains_of_isA (hP h hh))]

/-- The attributes of a class are inherited from those of another one. -/
lemma runs_inheritAttributes (ks : List NodeHandle) (h : NodeHandle)
    (superclass : Option NodeHandle) :
    Runs (Classes ks) (inheritAttributes h superclass) := by
  intro s hs ho hP
  rw [inheritAttributes, get_bind_apply]
  cases ha : s.attributesOf? h with
  | none => exact ⟨_, s, rfl, hP⟩
  | some a =>
    obtain ⟨parent, hc⟩ := ho.exists_struct hs ha
    obtain ⟨t, e, ht⟩ := setStructParent_of_struct hc (superclass.bind s.attributesOf?)
    exact ⟨_, t, e, hP.of_isA ht⟩

/-- The superclass of a class can be any class. -/
lemma runs_setSuperclass (h : NodeHandle) (superclass : Option NodeHandle) :
    Runs (Classes (h :: superclass.toList)) (setSuperclass h superclass) := by
  intro s hs ho hP
  have hh : h ∈ h :: superclass.toList := List.mem_cons_self
  obtain ⟨c, hc⟩ := Option.isSome_iff_exists.1 (isSome_class?_iff.2 (hP h hh))
  have hinherit := runs_inheritAttributes (h :: superclass.toList) h superclass
  unfold setSuperclass
  rw [get_bind_apply]
  cases superclass with
  | none =>
    have hrest := (runs_reviseClass hh fun c => { c with superclass := none }).bind
      (makes_reviseClass h _) fun _ => hinherit
    dsimp only
    rw [hc]
    dsimp only
    split
    · split
      · exact (runs_removeFrom _ _ _).bind (makes_removeFrom _ _ _) (fun _ => hrest) s hs ho hP
      · exact hrest s hs ho hP
    · exact ⟨_, s, rfl, hP⟩
  | some sup =>
    have hsup : sup ∈ h :: (some sup).toList := by simp
    have hrest := (runs_reviseClass hh fun c => { c with superclass := some sup }).bind
      (makes_reviseClass h _) fun _ => (runs_attachSubclass hh hsup).bind (makes_attach rfl)
        fun _ => hinherit
    dsimp only
    rw [if_neg (by simp [hP sup hsup]), hc]
    dsimp only
    split
    · split
      · exact (runs_removeFrom _ _ _).bind (makes_removeFrom _ _ _) (fun _ => hrest) s hs ho hP
      · exact hrest s hs ho hP
    · exact ⟨_, s, rfl, hP⟩

/-- A change of superclass is refused only if it is between other things than classes, and then before
anything is changed. -/
lemma setSuperclass_refused {s t : Store} (hs : s.Sound) (ho : s.Sorted) {fault : EditFault}
    (e : (setSuperclass h superclass).apply s = (.error fault, t)) :
    t = s ∧ ¬ Classes (h :: superclass.toList) s := by
  by_cases hP : Classes (h :: superclass.toList) s
  · obtain ⟨_, _, e', -⟩ := runs_setSuperclass h superclass s hs ho hP
    rw [e'] at e
    cases e
  refine ⟨?_, hP⟩
  unfold setSuperclass at e
  rw [get_bind_apply] at e
  have hclass : (∀ sup, superclass = some sup → s.isA sup .structuredClass = true) →
      s.class? h = none := by
    intro hsup
    by_contra hc
    refine hP fun k hk => ?_
    rcases List.mem_cons.1 hk with rfl | hk
    · exact isSome_class?_iff.1 (Option.isSome_iff_ne_none.2 hc)
    · exact hsup k (Option.mem_toList.1 hk)
  cases superclass with
  | none =>
    dsimp only at e
    rw [hclass nofun] at e
    cases e
    rfl
  | some sup =>
    dsimp only at e
    split at e
    · cases e
      rfl
    · next hsup =>
      rw [hclass fun k hk => by cases hk; simpa using hsup] at e
      cases e
      rfl

end Superclass

end Edit

end Semdoc
