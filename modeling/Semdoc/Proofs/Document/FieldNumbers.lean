import Semdoc.Document.Query
import Semdoc.Proofs.Ontology.EffectiveFields

/-!
# Numbers of fields

An entity and its class both number a field that is asked for by its name.  Without a name, or with the default
one, the entity takes the only tree field, and the class the first field with the default name.
-/

namespace Semdoc

namespace Store

variable {s : Store} {d e f : NodeHandle} {name : String} {i : Nat}

/-! ## Tree fields -/

lemma nodup_effectiveFields (hs : s.Sound) (d : NodeHandle) : (s.effectiveFields d).Nodup := by
  by_cases hc : s.isA d .structuredClass = true
  · exact (nodup_map_name_effectiveFields hs hc).of_map
  · rw [effectiveFields_of_not_class hc, ownFields_eq]
    exact hs.nodup d rfl

/-- The effective fields are the additional ones and then the tree fields. -/
lemma subtreesFirst_effectiveFields (hs : s.Sound) (ha : s.Arranged) (d : NodeHandle) :
    s.subtreesFirst (s.effectiveFields d) = s.effectiveFields d := by
  by_cases hc : s.isA d .structuredClass = true
  · have hadditional : ∀ f ∈ s.additionalFields d, s.isTreeField f = false := fun f hf =>
      ((mem_additionalFields_iff hs).1 hf).2
    have htree : ∀ f ∈ ((s.visibleFrom d).find? s.isTreeField).toList, s.isTreeField f = true :=
      fun f hf => List.find?_some (Option.mem_toList.1 hf)
    rw [effectiveFields_eq hc, subtreesFirst_eq_self_iff, List.pairwise_append]
    refine ⟨List.pairwise_of_forall_mem_list fun f hf g _ ht => ?_,
      List.pairwise_of_forall_mem_list fun f _ g hg _ => htree g hg, fun f _ g hg _ => htree g hg⟩
    rw [hadditional f hf] at ht
    cases ht
  · rw [effectiveFields_of_not_class hc]
    exact ha d

/-- The only tree field comes last. -/
lemma getElem?_eq_some_iff_of_treeFields (hs : s.Sound) (ha : s.Arranged) (hf : s.treeFields d = [f]) :
    (s.effectiveFields d)[i]? = some f ↔ i + 1 = (s.effectiveFields d).length := by
  have hlast := subtreesFirst_effectiveFields hs ha d
  have hnodup := nodup_effectiveFields hs d
  rw [subtreesFirst, ← treeFields, hf] at hlast
  generalize (s.effectiveFields d).filter (fun f => !s.isTreeField f) = additional at hlast
  rw [← hlast] at hnodup ⊢
  have hout : f ∉ additional := fun h => List.disjoint_of_nodup_append hnodup h List.mem_cons_self
  rw [List.length_append, List.length_singleton, Nat.add_right_cancel_iff]
  constructor
  · intro h
    rcases Nat.lt_or_ge i additional.length with hi | hi
    · rw [List.getElem?_append_left hi] at h
      exact absurd (List.mem_of_getElem? h) hout
    · rw [List.getElem?_append_right hi, List.getElem?_singleton] at h
      split at h
      · omega
      · cases h
  · rintro rfl
    rw [List.getElem?_append_right le_rfl, Nat.sub_self]
    rfl

/-- There is one number of a tree field exactly if there is one tree field. -/
lemma treeFieldNumbers_eq_singleton_iff (hs : s.Sound) :
    s.treeFieldNumbers d = [i] ↔ ∃ f, s.treeFields d = [f] ∧ (s.effectiveFields d)[i]? = some f := by
  have hnodup := nodup_effectiveFields hs d
  have hfields : s.treeFields d =
      ((s.effectiveFields d).zipIdx.filter fun e => s.isTreeField e.1).map Prod.fst := by
    rw [treeFields]
    conv_lhs => rw [← List.zipIdx_map_fst 0 (s.effectiveFields d), List.filter_map]
    rfl
  have hat : ∀ e ∈ (s.effectiveFields d).zipIdx.filter fun e => s.isTreeField e.1,
      (s.effectiveFields d)[e.2]? = some e.1 := fun e he =>
    List.mem_zipIdx_iff_getElem?.1 (List.mem_of_mem_filter he)
  rw [treeFieldNumbers, hfields]
  generalize (s.effectiveFields d).zipIdx.filter (fun e => s.isTreeField e.1) = numbered at hat
  constructor
  · intro h
    obtain ⟨⟨f, j⟩, rfl, rfl⟩ := List.map_eq_singleton_iff.1 h
    exact ⟨f, rfl, hat (f, j) List.mem_cons_self⟩
  · rintro ⟨f, h, hf⟩
    obtain ⟨⟨g, j⟩, rfl, rfl⟩ := List.map_eq_singleton_iff.1 h
    have hj := hat (g, j) List.mem_cons_self
    obtain ⟨hlt, -⟩ := List.getElem?_eq_some_iff.1 hf
    rw [(List.getElem?_inj hlt hnodup).1 (hf.trans hj.symm)]
    rfl

/-! ## Numbers by name -/

/-- Without a name, or with the default one, an entity takes its only tree field. -/
lemma entityFieldNumber_default_iff (hs : s.Sound) (he : s.descriptorOf e = .ok d)
    (hname : name = "" ∨ name = defaultFieldName) :
    s.entityFieldNumber e name = .ok i ↔
      ∃ f, s.treeFields d = [f] ∧ (s.effectiveFields d)[i]? = some f := by
  rw [← treeFieldNumbers_eq_singleton_iff hs, entityFieldNumber, he]
  show (if _ then _ else _) = _ ↔ _
  rw [if_pos (by simpa using hname)]
  split
  · next j hj =>
    rw [hj, List.cons.injEq, and_iff_left rfl]
    exact Except.ok.injEq j i ▸ Iff.rfl
  · next h => exact ⟨nofun, fun hi => (h i hi).elim⟩

/-- With any other name, an entity takes what its class takes. -/
lemma entityFieldNumber_iff (he : s.descriptorOf e = .ok d) (hempty : name ≠ "")
    (hdefault : name ≠ defaultFieldName) :
    s.entityFieldNumber e name = .ok i ↔ s.fieldNumber? d name = some i := by
  rw [entityFieldNumber, he, fieldNumber?]
  show (if _ then _ else _) = _ ↔ _
  rw [if_neg (by simp [hempty, hdefault])]
  simp only [beq_iff_eq, if_neg hempty]
  split
  · next j hj =>
    rw [hj, Option.some.injEq]
    exact Except.ok.injEq j i ▸ Iff.rfl
  · next h =>
    rw [h]
    exact ⟨nofun, nofun⟩

/-- Without a name, or with the default one, a class takes the first field with the default name. -/
lemma fieldNumber?_default_iff (hname : name = "" ∨ name = defaultFieldName) :
    s.fieldNumber? d name = some i ↔ ∃ f, (s.effectiveFields d)[i]? = some f ∧
      s.name f = defaultFieldName ∧ ∀ j < i, ∀ g, (s.effectiveFields d)[j]? = some g →
        s.name g ≠ defaultFieldName := by
  have hmeans : s.fieldNumber? d name =
      (s.effectiveFields d).findIdx? fun f => s.name f == defaultFieldName := by
    rcases hname with rfl | rfl <;> rfl
  simp only [hmeans, List.findIdx?_eq_some_iff_getElem, beq_iff_eq]
  constructor
  · rintro ⟨hi, hf, hfirst⟩
    refine ⟨_, List.getElem?_eq_getElem hi, hf, fun j hj g hg => ?_⟩
    obtain ⟨hlt, rfl⟩ := List.getElem?_eq_some_iff.1 hg
    simpa using hfirst j hj
  · rintro ⟨f, hf, hname, hfirst⟩
    obtain ⟨hi, rfl⟩ := List.getElem?_eq_some_iff.1 hf
    refine ⟨hi, hname, fun j hj => ?_⟩
    simpa using hfirst j hj _ (List.getElem?_eq_getElem (hj.trans hi))

/-- What is asked for without a name is the same for an entity and its class exactly if the fields with the default
name are the only tree field. -/
lemma default_numbers_agree_iff (hs : s.Sound) (ha : s.Arranged) (he : s.descriptorOf e = .ok d)
    (hname : name = "" ∨ name = defaultFieldName) :
    (∀ i, s.entityFieldNumber e name = .ok i ↔ s.fieldNumber? d name = some i) ↔
      ∀ f ∈ s.effectiveFields d, s.name f = defaultFieldName ↔ s.treeFields d = [f] := by
  simp only [entityFieldNumber_default_iff hs he hname, fieldNumber?_default_iff hname]
  have hnodup := nodup_effectiveFields hs d
  constructor
  · intro h f hf
    obtain ⟨j, hj⟩ := List.mem_iff_getElem?.1 hf
    constructor
    · intro hfname
      -- the first field with the default name is the tree field, which is the last field
      have hexists : ∃ k g, (s.effectiveFields d)[k]? = some g ∧ s.name g = defaultFieldName :=
        ⟨j, f, hj, hfname⟩
      obtain ⟨g, hg, hgname⟩ := Nat.find_spec hexists
      obtain ⟨t, hts, ht⟩ := (h (Nat.find hexists)).2 ⟨g, hg, hgname, fun k hk g' hg' hname' =>
        Nat.find_min hexists hk ⟨g', hg', hname'⟩⟩
      have hlast := (getElem?_eq_some_iff_of_treeFields hs ha hts).1 ht
      have hle : Nat.find hexists ≤ j := Nat.find_min' hexists ⟨f, hj, hfname⟩
      obtain ⟨hlt, -⟩ := List.getElem?_eq_some_iff.1 hj
      obtain rfl : Nat.find hexists = j := by omega
      rw [hts, Option.some.inj (hj.symm.trans ht)]
    · intro hfs
      obtain ⟨g, hg, hgname, -⟩ := (h j).1 ⟨f, hfs, hj⟩
      rwa [Option.some.inj (hj.symm.trans hg)]
  · intro h i
    constructor
    · rintro ⟨f, hfs, hf⟩
      refine ⟨f, hf, (h f (List.mem_of_getElem? hf)).2 hfs, fun j hj g hg hgname => ?_⟩
      have hgs := (h g (List.mem_of_getElem? hg)).1 hgname
      obtain rfl : f = g := List.singleton_inj.1 (hfs.symm.trans hgs)
      obtain ⟨hlt, -⟩ := List.getElem?_eq_some_iff.1 hf
      exact hj.ne ((List.getElem?_inj (hj.trans hlt) hnodup).1 (hg.trans hf.symm))
    · rintro ⟨f, hf, hfname, -⟩
      exact ⟨f, (h f (List.mem_of_getElem? hf)).1 hfname, hf⟩

/-! ## In a session -/

/-- An entity and its class number the fields alike by all names except the empty one and the default one.  For these
the entity takes the only tree field, which is the last one, and refuses if there is none or more than one.  Then
both agree exactly if the fields with the default name are the only tree field. -/
theorem field_numbers_agree_iff (steps : List SessionStep) (e d : NodeHandle)
    (he : (after steps).descriptorOf e = .ok d) (name : String) :
    (name ≠ "" → name ≠ defaultFieldName →
      ∀ i, (after steps).entityFieldNumber e name = .ok i ↔ (after steps).fieldNumber? d name = some i) ∧
    (name = "" ∨ name = defaultFieldName →
      (∀ i, (after steps).entityFieldNumber e name = .ok i ↔
        (∃ f, (after steps).treeFields d = [f]) ∧ i + 1 = ((after steps).effectiveFields d).length) ∧
      ((∀ i, (after steps).entityFieldNumber e name = .ok i ↔ (after steps).fieldNumber? d name = some i) ↔
        ∀ f ∈ (after steps).effectiveFields d,
          (after steps).name f = defaultFieldName ↔ (after steps).treeFields d = [f])) := by
  have hs := sound_after steps
  have ha := arranged_after steps
  generalize after steps = s at he hs ha ⊢
  refine ⟨fun hempty hdefault i => entityFieldNumber_iff he hempty hdefault, fun hname =>
    ⟨fun i => ?_, default_numbers_agree_iff hs ha he hname⟩⟩
  rw [entityFieldNumber_default_iff hs he hname, ← exists_and_right]
  exact exists_congr fun f => and_congr_right fun hf => getElem?_eq_some_iff_of_treeFields hs ha hf

/-- A session that creates a class whose tree field has a name, and an entity of the class. -/
def namedTreeSession : List SessionStep :=
  [.operate (.createOntology "o"), .operate (.createClass ⟨1, 1⟩ "c" .any none false true),
    .operate (.createField ⟨2, 1⟩ .tree "body" false none), .operate (.createDocument "d"),
    .operate (.createRoot ⟨5, 1⟩ ⟨2, 1⟩ none "")]

theorem field_numbers_agree_iff_namedTreeSession :
    (after namedTreeSession).descriptorOf ⟨6, 1⟩ = .ok ⟨2, 1⟩ ∧
      (after namedTreeSession).entityFieldNumber ⟨6, 1⟩ defaultFieldName = .ok 0 ∧
      ((after namedTreeSession).entityFieldNumber ⟨6, 1⟩ "body" = .ok 0 ↔
        (after namedTreeSession).fieldNumber? ⟨2, 1⟩ "body" = some 0) := by
  have he : (after namedTreeSession).descriptorOf ⟨6, 1⟩ = .ok ⟨2, 1⟩ := by decide +kernel
  obtain ⟨hsame, -⟩ := field_numbers_agree_iff namedTreeSession ⟨6, 1⟩ ⟨2, 1⟩ he "body"
  obtain ⟨-, hdefault⟩ := field_numbers_agree_iff namedTreeSession ⟨6, 1⟩ ⟨2, 1⟩ he defaultFieldName
  obtain ⟨htree, -⟩ := hdefault (.inr rfl)
  refine ⟨he, (htree 0).2 ⟨⟨⟨4, 1⟩, by decide +kernel⟩, by decide +kernel⟩, ?_⟩
  exact hsame (by decide) (by decide) 0

/-- Without a name the entity takes the tree field, and the class finds none. -/
theorem field_numbers_differ_namedTreeSession :
    (after namedTreeSession).descriptorOf ⟨6, 1⟩ = .ok ⟨2, 1⟩ ∧
      (after namedTreeSession).entityFieldNumber ⟨6, 1⟩ "" = .ok 0 ∧
      (after namedTreeSession).fieldNumber? ⟨2, 1⟩ "" ≠ some 0 := by
  decide +kernel

end Store

end Semdoc
