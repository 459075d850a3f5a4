import Semdoc.Proofs.Session.Halfway
import Semdoc.Proofs.Session.Naming

/-!
# Array types

The type of arrays of another type is looked up by its name before it is created.  An index shows one of several
types with a name, so the array type is found again unless a type that came before it has its name.
-/

namespace Semdoc

lemma TypeTag.isA_typesystem_iff {t : TypeTag} :
    t.isA .typesystem = true ↔ t = .typesystem ∨ t = .systemTypesystem := by
  cases t <;> decide +kernel

lemma Content.typesystemTypes_mem_listSlots {c : Content} (h : c.tag.isA .typesystem = true) :
    .typesystemTypes ∈ c.listSlots := by
  cases c with
  | typesystem isSystem => exact List.mem_cons_self
  | type shape => cases shape <;> simp [TypeTag.isA_typesystem_iff, tag, TypeShape.tag] at h
  | _ => simp [TypeTag.isA_typesystem_iff, tag] at h

/-! ## What a slot shows -/

namespace Roster

/-- A node that comes last is shown if no other has its name. -/
lemma resolve?_push (r : Roster) (h : NodeHandle) {name : String} (hname : name ≠ "") :
    (r.push h name).resolve? name = (r.resolve? name).or (some h) := by
  simp only [push, resolve?, NameIndex.insert, NameIndex.get?, beq_iff_eq, if_neg hname,
    List.find?_append]
  cases r.index.entries.find? (fun e => e.1 == name) with
  | some e => rfl
  | none => simp

end Roster

namespace Store

variable {s : Store} {o k t inner typesystem : NodeHandle}

lemma childNamed?_eq (s : Store) (o : NodeHandle) (slot : Slot) (name : String) :
    s.childNamed? o slot name = (s.rosterAt o slot).resolve? name := by
  unfold childNamed? roster? rosterAt
  cases s.get? o with
  | none => rfl
  | some n =>
    rw [Option.map_some, Option.getD_some, Node.rosterAt, Option.bind_some]
    cases n.roster? slot <;> rfl

/-- A new node is not in any slot. -/
lemma rosterAt_create (hs : s.Intact) (name : String) (content : Content) (hk : k ≠ s.nextHandle)
    (slot : Slot) : (s.create name content).2.rosterAt k slot = s.rosterAt k slot := by
  rw [rosterAt, hs.get?_create, if_neg hk, rosterAt]

lemma name_grown (hs : s.Intact) (o : NodeHandle) (slot : Slot) (name : String) (content : Content)
    (k : NodeHandle) :
    (s.grown o slot name content).name k = if k = s.nextHandle then name else s.name k := by
  rw [grown_eq hs, (SameNodes.invalidate _ o).name, name_link, Store.name, hs.get?_create]
  split <;> rfl

/-- A new node comes last in its slot. -/
lemma rosterAt_grown (hs : s.Sound) {slot : Slot} (hsingle : slot.isSingle = false)
    (ha : s.Accepts o slot) (name : String) (content : Content) :
    (s.grown o slot name content).rosterAt o slot = (s.rosterAt o slot).push s.nextHandle name := by
  obtain ⟨n, hn, hacc⟩ := ha
  have hget := hs.intact.get?_create name content
  have ho : o ≠ s.nextHandle := ne_nextHandle hs.intact (contains_iff.2 ⟨n, hn⟩)
  have ha' : (s.create name content).2.Accepts o slot := ⟨n, by rw [hget, if_neg ho, hn], hacc⟩
  have hname : (s.create name content).2.name s.nextHandle = name := by
    rw [Store.name, hget, if_pos rfl]
    rfl
  rw [grown_eq hs.intact, (SameNodes.invalidate _ o).rosterAt,
    rosterAt_link (hs.create name content).shaped ha' _ _ hsingle, if_pos ⟨rfl, rfl⟩, hname,
    rosterAt_create hs.intact name content ho]

lemma shape?_grown (hs : s.Intact) (o : NodeHandle) (slot : Slot) (name : String) (shape : TypeShape)
    (k : NodeHandle) :
    (s.grown o slot name (.type shape)).shape? k =
      if k = s.nextHandle then some shape else s.shape? k := by
  rw [shape?, content?_grown hs, shape?]
  by_cases hk : k = s.nextHandle
  · rw [if_pos hk, if_pos hk]
  · rw [if_neg hk, if_neg hk]

lemma accepts_typesystemTypes (hs : s.Shaped) (h : s.isA o .typesystem = true) :
    s.Accepts o .typesystemTypes := by
  obtain ⟨n, hn⟩ := contains_iff.1 (contains_of_isA h)
  rw [isA, hn] at h
  exact ⟨n, hn, ((hs o n hn).accepts_iff rfl rfl).2 (Content.typesystemTypes_mem_listSlots h)⟩

lemma contains_nextHandle (hs : s.Intact) : s.contains s.nextHandle = false := by
  rw [contains, get?_nextHandle hs]
  rfl

/-! ## Array types -/

/-- The name of the type of arrays of another type. -/
def arrayName (s : Store) (inner : NodeHandle) : String := s!"{s.name inner}[]"

/-- The array type that is found in a typesystem. -/
def arrayType? (s : Store) (typesystem inner : NodeHandle) : Option NodeHandle :=
  (s.childNamed? typesystem .typesystemTypes (s.arrayName inner)).filter
    fun t => s.shape? t == some (.array inner)

/-- A typesystem shows another type under the name of an array type. -/
def ArrayNameTaken (s : Store) (typesystem inner : NodeHandle) : Prop :=
  ∃ t, s.childNamed? typesystem .typesystemTypes (s.arrayName inner) = some t ∧
    s.shape? t ≠ some (.array inner)

/-- A typesystem with a new type of arrays of another type. -/
def withArrayType (s : Store) (typesystem inner : NodeHandle) : Store :=
  s.grown typesystem .typesystemTypes (s.arrayName inner) (.type (.array inner))

lemma arrayName_ne_empty (s : Store) (inner : NodeHandle) : s.arrayName inner ≠ "" := by
  intro h
  have hlength := congrArg String.length h
  rw [arrayName, String.length_append] at hlength
  exact absurd hlength (by show _ + 2 ≠ 0; omega)

/-- A typesystem shows a type that it lists, under the name that it has. -/
lemma of_childNamed? (hm : s.Mirrored fun slot => slot.isComposition = true) {name : String}
    (ht : s.childNamed? o .typesystemTypes name = some t) :
    t ∈ s.listed o .typesystemTypes ∧ s.name t = name := by
  rw [childNamed?_eq] at ht
  rw [listed_eq_held o rfl, held_of_not_isSingle s o rfl]
  exact (hm.mirrors o .typesystemTypes rfl).of_resolve? ht

lemma contains_of_childNamed? (hs : s.Sound) (hm : s.Mirrored fun slot => slot.isComposition = true)
    {name : String} (ht : s.childNamed? o .typesystemTypes name = some t) : s.contains t = true := by
  have hlisted := (of_childNamed? hm ht).1
  rw [listed_eq_held o rfl] at hlisted
  exact contains_of_home? (hs.home_of_held rfl hlisted)

lemma arrayType?_eq_some_iff : s.arrayType? o inner = some t ↔
    s.childNamed? o .typesystemTypes (s.arrayName inner) = some t ∧
      s.shape? t = some (.array inner) := by
  rw [arrayType?, Option.filter_eq_some_iff, beq_iff_eq]

section

variable (hs : s.Sound) (hts : s.isA o .typesystem = true)
include hs hts

lemma createArrayType_apply (inner : NodeHandle) :
    (Edit.createArrayType o inner).apply s =
      match s.arrayType? o inner with
      | some t => (.ok t, s)
      | none => (.ok s.nextHandle, s.withArrayType o inner) := by
  unfold Edit.createArrayType
  rw [Edit.get_bind_apply]
  change Edit.apply (match s.arrayType? o inner with
    | some existing => pure existing
    | none => Edit.createType o (s.arrayName inner) (.array inner)) s = _
  cases s.arrayType? o inner with
  | some t => rfl
  | none => exact Edit.createIn_of_accepts hs rfl (accepts_typesystemTypes hs.shaped hts) _ _

/-- The new type is one that the typesystem lists. -/
lemma listed_withArrayType (inner : NodeHandle) :
    s.nextHandle ∈ (s.withArrayType o inner).listed o .typesystemTypes ∧
      (s.withArrayType o inner).name s.nextHandle = s.arrayName inner ∧
      (s.withArrayType o inner).shape? s.nextHandle = some (.array inner) := by
  refine ⟨?_, by rw [withArrayType, name_grown hs.intact, if_pos rfl],
    by rw [withArrayType, shape?_grown hs.intact, if_pos rfl]⟩
  rw [listed_eq_held o rfl, held_of_not_isSingle _ o rfl, withArrayType,
    rosterAt_grown hs rfl (accepts_typesystemTypes hs.shaped hts), Roster.items_push]
  exact List.mem_append_right _ List.mem_cons_self

lemma sound_withArrayType (inner : NodeHandle) : (s.withArrayType o inner).Sound :=
  hs.grown rfl (accepts_typesystemTypes hs.shaped hts) _ _

variable (hinner : s.contains inner = true)
include hinner

omit hts in
lemma arrayName_withArrayType : (s.withArrayType o inner).arrayName inner = s.arrayName inner := by
  rw [arrayName, withArrayType, name_grown hs.intact, if_neg (ne_nextHandle hs.intact hinner),
    arrayName]

/-- The type that was shown before is still shown; else it is the new one. -/
lemma childNamed?_withArrayType :
    (s.withArrayType o inner).childNamed? o .typesystemTypes
        ((s.withArrayType o inner).arrayName inner) =
      (s.childNamed? o .typesystemTypes (s.arrayName inner)).or (some s.nextHandle) := by
  rw [arrayName_withArrayType hs hinner, childNamed?_eq, childNamed?_eq, withArrayType,
    rosterAt_grown hs rfl (accepts_typesystemTypes hs.shaped hts),
    Roster.resolve?_push _ _ (arrayName_ne_empty s inner)]

lemma arrayType?_withArrayType
    (hfree : s.childNamed? o .typesystemTypes (s.arrayName inner) = none) :
    (s.withArrayType o inner).arrayType? o inner = some s.nextHandle := by
  rw [arrayType?_eq_some_iff, childNamed?_withArrayType hs hts hinner, hfree]
  refine ⟨rfl, ?_⟩
  rw [withArrayType, shape?_grown hs.intact, if_pos rfl]

/-- A name that is taken stays taken. -/
lemma ArrayNameTaken.withArrayType (hm : s.Mirrored fun slot => slot.isComposition = true)
    (htaken : s.ArrayNameTaken o inner) : (s.withArrayType o inner).ArrayNameTaken o inner := by
  obtain ⟨t, ht, hshape⟩ := htaken
  refine ⟨t, by rw [childNamed?_withArrayType hs hts hinner, ht, Option.some_or], ?_⟩
  rwa [Store.withArrayType, shape?_grown hs.intact,
    if_neg (ne_nextHandle hs.intact (contains_of_childNamed? hs hm ht))]

end

lemma ArrayNameTaken.arrayType?_eq_none (htaken : s.ArrayNameTaken o inner) :
    s.arrayType? o inner = none := by
  obtain ⟨t, ht, hshape⟩ := htaken
  rw [arrayType?, ht, Option.filter_some, if_neg (by simpa using hshape)]

lemma childNamed?_eq_none_of_not_taken (hfound : s.arrayType? o inner = none)
    (hfree : ¬ s.ArrayNameTaken o inner) :
    s.childNamed? o .typesystemTypes (s.arrayName inner) = none := by
  rw [Option.eq_none_iff_forall_ne_some]
  intro t ht
  refine hfree ⟨t, ht, fun hshape => ?_⟩
  rw [arrayType?_eq_some_iff.2 ⟨ht, hshape⟩] at hfound
  cases hfound

/-- While another type is shown under the name, a new type is created. -/
lemma ArrayNameTaken.createArrayType_apply (hs : s.Sound) (hts : s.isA o .typesystem = true)
    (htaken : s.ArrayNameTaken o inner) :
    (Edit.createArrayType o inner).apply s = (.ok s.nextHandle, s.withArrayType o inner) := by
  rw [Store.createArrayType_apply hs hts, htaken.arrayType?_eq_none]

/-! ## In a session -/

/-- Creating the type of arrays of another type in a typesystem gives a type that the typesystem lists, and changes
nothing if the type was there before.  Doing it again gives the same type and changes nothing, unless the typesystem
shows another type under the name of the array type.  Then every time a new type is created. -/
theorem createArrayType_twice (steps : List SessionStep) (o inner : NodeHandle)
    (hts : (after steps).isA o .typesystem = true) (hinner : (after steps).contains inner = true) :
    ∃ t s', (Edit.createArrayType o inner).apply (after steps) = (.ok t, s') ∧
      (t ∈ s'.listed o .typesystemTypes ∧ s'.name t = (after steps).arrayName inner ∧
        s'.shape? t = some (.array inner)) ∧
      ((after steps).contains t = true → s' = after steps) ∧
      ((Edit.createArrayType o inner).apply s' = (.ok t, s') ↔
        ¬ (after steps).ArrayNameTaken o inner) ∧
      ((after steps).ArrayNameTaken o inner → s'.ArrayNameTaken o inner ∧ s'.contains t = true ∧
        s'.contains s'.nextHandle = false ∧
        (Edit.createArrayType o inner).apply s' = (.ok s'.nextHandle, s'.withArrayType o inner)) := by
  have hs := sound_after steps
  have hm := mirrored_isComposition_after steps
  generalize after steps = s at hs hm hts hinner ⊢
  rw [createArrayType_apply hs hts]
  cases hfound : s.arrayType? o inner with
  | some t =>
    obtain ⟨ht, hshape⟩ := arrayType?_eq_some_iff.1 hfound
    have hfree : ¬ s.ArrayNameTaken o inner := fun htaken => by
      rw [htaken.arrayType?_eq_none] at hfound
      cases hfound
    refine ⟨t, s, rfl, ⟨(of_childNamed? hm ht).1, (of_childNamed? hm ht).2, hshape⟩, fun _ => rfl,
      iff_of_true ?_ hfree, fun htaken => (hfree htaken).elim⟩
    rw [createArrayType_apply hs hts, hfound]
  | none =>
    have hs' := sound_withArrayType hs hts inner
    have hts' : (s.withArrayType o inner).isA o .typesystem = true := isA_grown_of_isA hs.intact hts ..
    have hspec := listed_withArrayType hs hts inner
    have hlive : (s.withArrayType o inner).contains s.nextHandle = true := by
      rw [contains_eq, withArrayType, content?_grown hs.intact, if_pos rfl]
      rfl
    have hagain := fun htaken =>
      (ArrayNameTaken.withArrayType hs hts hinner hm htaken).createArrayType_apply hs' hts'
    refine ⟨s.nextHandle, s.withArrayType o inner, rfl, hspec, fun h => ?_,
      ⟨fun hsame htaken => ?_, fun hfree => ?_⟩, fun htaken => ⟨htaken.withArrayType hs hts hinner hm, hlive,
        contains_nextHandle hs'.intact, hagain htaken⟩⟩
    · rw [contains_nextHandle hs.intact] at h
      cases h
    · rw [hagain htaken, Prod.mk.injEq, Except.ok.injEq] at hsame
      rw [← hsame.1, contains_nextHandle hs'.intact] at hlive
      cases hlive
    · rw [createArrayType_apply hs' hts',
        arrayType?_withArrayType hs hts hinner (childNamed?_eq_none_of_not_taken hfound hfree)]

/-- A session with two typesystems that have a type of the same name, in which the array types of both are created
in the first one. -/
def equalNamesSession : List SessionStep :=
  [.operate (.createTypesystem "a"), .operate (.createType ⟨1, 1⟩ "t" .int),
    .operate (.createTypesystem "b"), .operate (.createType ⟨3, 1⟩ "t" .int),
    .operate (.createArrayType ⟨1, 1⟩ ⟨2, 1⟩)]

theorem createArrayType_twice_equalNamesSession :
    ((after equalNamesSession).isA ⟨1, 1⟩ .typesystem = true ∧
      (after equalNamesSession).contains ⟨2, 1⟩ = true) ∧
      ∃ t s', (Edit.createArrayType ⟨1, 1⟩ ⟨2, 1⟩).apply (after equalNamesSession) = (.ok t, s') ∧
        (Edit.createArrayType ⟨1, 1⟩ ⟨2, 1⟩).apply s' = (.ok t, s') := by
  have hts : (after equalNamesSession).isA ⟨1, 1⟩ .typesystem = true := by decide +kernel
  have hinner : (after equalNamesSession).contains ⟨2, 1⟩ = true := by decide +kernel
  have hfree : ¬ (after equalNamesSession).ArrayNameTaken ⟨1, 1⟩ ⟨2, 1⟩ := by
    rintro ⟨t, ht, hshape⟩
    have hshown : (after equalNamesSession).childNamed? ⟨1, 1⟩ .typesystemTypes
      ((after equalNamesSession).arrayName ⟨2, 1⟩) = some ⟨5, 1⟩ := by decide +kernel
    rw [← Option.some.inj (hshown.symm.trans ht)] at hshape
    exact hshape (by decide +kernel)
  obtain ⟨t, s', hfirst, -, -, hsame, -⟩ :=
    createArrayType_twice equalNamesSession ⟨1, 1⟩ ⟨2, 1⟩ hts hinner
  exact ⟨⟨hts, hinner⟩, t, s', hfirst, hsame.2 hfree⟩

/-- The array type of the other type with the name is created each time. -/
theorem createArrayType_again_equalNamesSession :
    ((after equalNamesSession).isA ⟨1, 1⟩ .typesystem = true ∧
      (after equalNamesSession).contains ⟨4, 1⟩ = true) ∧
    ((Edit.createArrayType ⟨1, 1⟩ ⟨4, 1⟩).apply (after equalNamesSession)).1.toOption = some ⟨6, 1⟩ ∧
    ((Edit.createArrayType ⟨1, 1⟩ ⟨4, 1⟩).apply
      ((Edit.createArrayType ⟨1, 1⟩ ⟨4, 1⟩).apply (after equalNamesSession)).2).1.toOption =
        some ⟨7, 1⟩ := by
  decide +kernel

end Store

end Semdoc
