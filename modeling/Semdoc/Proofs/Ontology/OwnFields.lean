import Semdoc.Proofs.Session.Superclasses

/-!
# The own fields of classes

A class lists its additional fields before its tree fields.  Whenever a field comes in or changes its type, the
tree fields are moved to the end one after another, which leaves both kinds in their order.
-/

namespace Semdoc

open Relation Store

/-! ## Moving to the end -/

namespace Roster

variable {r : Roster}

/-- Nodes that are moved to the end one after another come last, in the order in which they are moved. -/
lemma items_foldl_moveTo {hs : List NodeHandle} (hr : r.items.Nodup) (hd : hs.Nodup)
    (hsub : hs ⊆ r.items) :
    (hs.foldl (fun r h => r.moveTo h (r.items.length - 1)) r).items =
      r.items.filter (· ∉ hs) ++ hs := by
  induction hs generalizing r with
  | nil => simp
  | cons h hs ih =>
    obtain ⟨hh, hd⟩ := List.nodup_cons.1 hd
    obtain ⟨hmem, hsub⟩ := List.cons_subset.1 hsub
    have hrest : (r.items.erase h).filter (· ∉ hs) = r.items.filter (· ∉ h :: hs) := by
      rw [hr.erase_eq_filter, List.filter_filter]
      refine List.filter_congr fun k _ => ?_
      by_cases hk : k = h <;> simp [hk]
    have hlast : [h].filter (· ∉ hs) = [h] := by simp [hh]
    rw [List.foldl_cons, moveTo_last r hmem, ih, List.filter_append, hrest, hlast,
      List.append_assoc, List.singleton_append]
    · refine List.nodup_append.2 ⟨hr.erase h, by simp, fun k hk l hl => ?_⟩
      rw [List.mem_singleton.1 hl]
      exact (hr.mem_erase_iff.1 hk).1
    · exact hd
    · intro k hk
      have hne : k ≠ h := fun e => hh (e ▸ hk)
      exact List.mem_append_left _ (hr.mem_erase_iff.2 ⟨hne, hsub hk⟩)

/-- What is moved to the end keeps its order, and so does what is left. -/
lemma items_moveLast (hr : r.items.Nodup) (last : NodeHandle → Bool) :
    (r.moveLast last).items = (r.items.filter fun h => !last h) ++ r.items.filter last := by
  rw [moveLast, items_foldl_moveTo hr (hr.filter last) (List.filter_subset_self _)]
  congr 1
  refine List.filter_congr fun k hk => ?_
  simp [hk]

end Roster

namespace Store

variable {s t : Store} {d f g : NodeHandle}

/-! ## Types of fields -/

lemma ownFields_eq (s : Store) (d : NodeHandle) : s.ownFields d = s.held d .descriptorFields :=
  listed_eq_held d rfl

lemma fieldType?_eq (s : Store) (f : NodeHandle) :
    s.fieldType? f = (s.content? f).bind Content.fieldType? := by
  rw [fieldType?, field?]
  cases s.content? f with
  | none => rfl
  | some c => cases c <;> rfl

lemma isTreeField_iff : s.isTreeField f = true ↔ s.fieldType? f = some .tree := by
  rw [isTreeField, beq_iff_eq]

lemma isSome_field?_iff : (s.field? f).isSome = true ↔ s.isA f .fieldDescriptor = true := by
  rw [isA_iff_content? (by decide), field?]
  cases s.content? f with
  | none => simp
  | some c =>
    cases c with
    | typesystem b => cases b <;> simp [Content.tag]
    | type shape => cases shape <;> simp [Content.tag, TypeShape.tag]
    | _ => simp [Content.tag]

/-- What is listed as a field is one, of either kind. -/
lemma fieldType?_of_mem_ownFields (hs : s.Sound) (ho : s.Sorted) (hf : f ∈ s.ownFields d) :
    s.fieldType? f = some .subtree ∨ s.fieldType? f = some .tree := by
  rw [ownFields_eq] at hf
  obtain ⟨c, hc⟩ := Option.isSome_iff_exists.1
    (isSome_field?_iff.2 (ho.fits (hs.home_of_held rfl hf) rfl))
  rw [fieldType?, hc, Option.map_some]
  cases c.type
  · exact .inr rfl
  · exact .inl rfl

lemma subtree_iff_of_mem_ownFields (hs : s.Sound) (ho : s.Sorted) (hf : f ∈ s.ownFields d) :
    s.fieldType? f = some .subtree ↔ s.isTreeField f = false := by
  rw [← Bool.not_eq_true, isTreeField_iff]
  rcases fieldType?_of_mem_ownFields hs ho hf with h | h <;> simp [h]

/-- No field is listed twice, by the same class or by two. -/
lemma nodup_flatMap_ownFields (hs : s.Sound) {line : List NodeHandle} (hline : line.Nodup) :
    (line.flatMap s.ownFields).Nodup := by
  rw [List.nodup_flatMap]
  refine ⟨fun c _ => ?_, hline.imp fun {a b} hab f hfa hfb => ?_⟩
  · rw [ownFields_eq]
    exact hs.nodup c rfl
  · rw [ownFields_eq] at hfa hfb
    exact hab (hs.eq_of_held rfl rfl hfa hfb).1

/-! ## Additional fields first -/

/-- The additional fields of a list and then its tree fields, both in their order. -/
def subtreesFirst (s : Store) (l : List NodeHandle) : List NodeHandle :=
  (l.filter fun f => !s.isTreeField f) ++ l.filter s.isTreeField

/-- Every class lists its additional fields first. -/
def Arranged (s : Store) : Prop :=
  ∀ d, s.subtreesFirst (s.ownFields d) = s.ownFields d

lemma subtreesFirst_eq_self_iff {l : List NodeHandle} : s.subtreesFirst l = l ↔
    l.Pairwise fun f g => s.isTreeField f = true → s.isTreeField g = true := by
  constructor
  · intro h
    rw [← h, subtreesFirst, List.pairwise_append]
    refine ⟨List.pairwise_of_forall_mem_list fun f hf g _ htree => ?_,
      List.pairwise_of_forall_mem_list fun f _ g hg _ => (List.mem_filter.1 hg).2,
      fun f _ g hg _ => (List.mem_filter.1 hg).2⟩
    exact absurd htree (by simpa using (List.mem_filter.1 hf).2)
  · intro h
    induction l with
    | nil => rfl
    | cons f l ih =>
      obtain ⟨hf, hl⟩ := List.pairwise_cons.1 h
      cases htree : s.isTreeField f with
      | true =>
        have hall : ∀ g ∈ f :: l, s.isTreeField g = true := by simpa [htree] using fun g hg => hf g hg htree
        rw [subtreesFirst, List.filter_eq_self.2 hall, List.filter_eq_nil_iff.2 (by simpa using hall),
          List.nil_append]
      | false => simpa [subtreesFirst, htree] using ih hl

lemma subtreesFirst_subtreesFirst (l : List NodeHandle) :
    s.subtreesFirst (s.subtreesFirst l) = s.subtreesFirst l := by
  simp [subtreesFirst, List.filter_append, List.filter_filter]

/-- A part of an arranged list is arranged. -/
lemma subtreesFirst_of_sublist {l l' : List NodeHandle} (h : s.subtreesFirst l = l)
    (hl : l'.Sublist l) : s.subtreesFirst l' = l' :=
  subtreesFirst_eq_self_iff.2 ((subtreesFirst_eq_self_iff.1 h).sublist hl)

lemma subtreesFirst_congr {l : List NodeHandle} (h : ∀ f ∈ l, t.fieldType? f = s.fieldType? f) :
    t.subtreesFirst l = s.subtreesFirst l := by
  have htree : ∀ f ∈ l, t.isTreeField f = s.isTreeField f := fun f hf => by
    rw [isTreeField, h f hf, isTreeField]
  unfold subtreesFirst
  rw [List.filter_congr htree, List.filter_congr fun f hf => congrArg not (htree f hf)]

/-! ## Sorting -/

lemma SameContents.fieldType? (h : SameContents s t) (f : NodeHandle) :
    t.fieldType? f = s.fieldType? f := by
  rw [fieldType?_eq, h.content?, fieldType?_eq]

lemma SameContents.subtreesFirst (h : SameContents s t) (l : List NodeHandle) :
    t.subtreesFirst l = s.subtreesFirst l := subtreesFirst_congr fun f _ => h.fieldType? f

lemma sameContents_sortFields (s : Store) (d : NodeHandle) : SameContents s (s.sortFields d) :=
  .editRoster s d .descriptorFields _

/-- The tree fields of a class are moved to the end. -/
lemma ownFields_sortFields_self (hs : s.Sound) (d : NodeHandle) :
    (s.sortFields d).ownFields d = s.subtreesFirst (s.ownFields d) := by
  by_cases hempty : s.ownFields d = []
  · have hperm : ((s.sortFields d).ownFields d).Perm (s.ownFields d) := by
      rw [ownFields_eq, ownFields_eq]
      exact (Quiet.editRoster s d _ fun r => (r.moveLast_perm _).2).held d _
    rw [hempty] at hperm ⊢
    exact hperm.eq_nil
  · obtain ⟨f, hf⟩ := List.exists_mem_of_ne_nil _ hempty
    rw [ownFields_eq] at hf
    obtain ⟨n, hn⟩ := contains_iff.1 (contains_of_mem_held hf)
    have hheld : s.held d .descriptorFields = (n.rosterAt .descriptorFields).items := by
      rw [held_of_get? hn, n.held_of_not_isSingle rfl]
    have hnodup : (s.held d .descriptorFields).Nodup := hs.nodup d rfl
    rw [held_of_get? hn] at hf
    rw [hheld] at hnodup
    rw [ownFields_eq, ownFields_eq, hheld, sortFields, held, get?_modify, if_pos rfl, hn,
      Option.map_some, Option.map_some, Option.getD_some, Node.held_of_not_isSingle _ rfl,
      (hs.shaped d n hn).rosterAt_editRoster rfl (Node.accepts_of_mem_held hf), if_pos rfl,
      Roster.items_moveLast hnodup, subtreesFirst]

lemma ownFields_sortFields (hs : s.Sound) (d k : NodeHandle) :
    (s.sortFields d).ownFields k = if k = d then s.subtreesFirst (s.ownFields k) else s.ownFields k := by
  split
  · next e => rw [e, ownFields_sortFields_self hs]
  · next hk => rw [ownFields_eq, sortFields, held_modify, if_neg hk, ownFields_eq]

/-- A field that is put into a class leaves the one where it was. -/
lemma ownFields_place (hs : s.Sound) (hf : s.attachFault? d .descriptorFields f = none)
    (k : NodeHandle) : (s.place d .descriptorFields f).ownFields k =
      if k = d then (s.ownFields k).erase f ++ [f] else (s.ownFields k).erase f := by
  obtain ⟨t, ht, -, hts, ha, -, -⟩ := hs.exists_link hf
  have hleave : ∀ k, t.held k .descriptorFields = (s.held k .descriptorFields).erase f := by
    intro k
    have hhome : f ∈ s.held k .descriptorFields → s.home? f = some ⟨k, .descriptorFields⟩ :=
      hs.home_of_held rfl
    rw [ht, if_pos (by rfl), detach]
    cases hh : s.home? f with
    | none =>
      rw [hh] at hhome
      exact (List.erase_of_not_mem fun h => by cases hhome h).symm
    | some home =>
      rw [hh] at hhome
      rw [held_removeFrom hs.shaped]
      split
      · next e => rw [e.1, e.2]
      · next e =>
        refine (List.erase_of_not_mem fun h => e ?_).symm
        cases hhome h
        exact ⟨rfl, rfl⟩
  rw [ownFields_eq, place_eq, ← ht, (SameNodes.invalidate _ d).held, held_link hts.shaped ha]
  by_cases hk : k = d
  · rw [if_pos ⟨hk, rfl⟩, if_pos hk, hleave, ownFields_eq, hk]
    rfl
  · rw [if_neg fun e => hk e.1, if_neg hk, hleave, ownFields_eq]

lemma contains_of_mem_ownFields (hs : s.Sound) (hf : f ∈ s.ownFields d) : s.contains f = true := by
  rw [ownFields_eq] at hf
  exact contains_of_home? (hs.home_of_held rfl hf)

/-- The lists of fields with a field taken out of all of them and appended to one. -/
def fieldsMoved (s : Store) (d f k : NodeHandle) : List NodeHandle :=
  if k = d then (s.ownFields k).erase f ++ [f] else (s.ownFields k).erase f

end Store

/-! ## Edits -/

namespace Edit

variable {α : Type} {s t : Store} {d f : NodeHandle} {lists : α → NodeHandle → List NodeHandle}

/-- An edit leaves the own fields of every class as the stable partition of a list, or as they are if it is
refused. -/
def Partitions (e : Edit α) (s : Store) (lists : α → NodeHandle → List NodeHandle) : Prop :=
  match e.apply s with
  | (.ok a, t) => ∀ d, t.ownFields d = t.subtreesFirst (lists a d)
  | (.error _, t) => ∀ d, t.ownFields d = s.ownFields d ∧
      ∀ f ∈ s.ownFields d, t.fieldType? f = s.fieldType? f

lemma Partitions.arranged {e : Edit α} (h : e.Partitions s lists) (ha : s.Arranged) :
    (e.apply s).2.Arranged := by
  unfold Partitions at h
  intro d
  split at h
  · next a t e =>
    rw [e, h, subtreesFirst_subtreesFirst]
  · next fault t e =>
    rw [e, (h d).1, subtreesFirst_congr (h d).2, ha]

/-- Sorting the fields of one more class makes no difference where all are sorted. -/
lemma ownFields_sortFields_of_sorted (ht : t.Sound) {l : NodeHandle → List NodeHandle}
    (h : ∀ k, t.ownFields k = t.subtreesFirst (l k)) (d k : NodeHandle) :
    (t.sortFields d).ownFields k = (t.sortFields d).subtreesFirst (l k) := by
  rw [(sameContents_sortFields t d).subtreesFirst, ownFields_sortFields ht, h]
  split
  · exact subtreesFirst_subtreesFirst _
  · rfl

section

variable (hs : s.Sound) (ha : s.Arranged)
include hs ha

lemma partitions_addField (d f : NodeHandle) :
    (addField d f).Partitions s fun _ => s.fieldsMoved d f := by
  unfold Partitions
  rcases addField_apply d f s with ⟨fault, e⟩ | ⟨hfit, hf, e⟩
  · rw [e]
    exact fun d => ⟨rfl, fun _ _ => rfl⟩
  · rw [e]
    intro k
    have hplace := SameContents.place s d .descriptorFields f
    rw [(hplace.trans (sameContents_sortFields _ d)).subtreesFirst,
      ownFields_sortFields (hs.changes (hs.changes_place hf hfit)), ownFields_place hs hf,
      hplace.subtreesFirst]
    dsimp only [fieldsMoved]
    split
    · rfl
    · exact (subtreesFirst_of_sublist (ha k) List.erase_sublist).symm

lemma partitions_moveField (d f : NodeHandle) :
    (moveField d f).Partitions s fun _ => s.fieldsMoved d f := by
  have hadd := partitions_addField hs ha d f
  have hmakes := makes_addField d f s hs
  unfold Partitions at hadd ⊢
  unfold moveField
  rw [get_bind_apply]
  dsimp only
  rw [apply_bind]
  rcases addField_apply d f s with ⟨fault, e⟩ | ⟨-, -, e⟩
  · rw [e] at hadd ⊢
    exact hadd
  · rw [e] at hadd hmakes ⊢
    cases s.parent? f with
    | none => exact hadd
    | some p => exact ownFields_sortFields_of_sorted (hs.changes hmakes) hadd p

lemma partitions_createField (d : NodeHandle) (type : FieldType) (name : String) (optional : Bool)
    (primitiveType : Option NodeHandle) :
    (createField d type name optional primitiveType).Partitions s fun f k =>
      if k = d then s.ownFields k ++ [f] else s.ownFields k := by
  unfold createField
  dsimp only
  generalize (if name == "" then defaultFieldName else name) = name
  generalize Content.fieldDescriptor { type, optional, primitiveType } = content
  have hcreate := hs.create name content
  have hfields : ∀ k, (s.create name content).2.ownFields k = s.ownFields k := fun k => by
    rw [ownFields_eq, hs.intact.held_create, ownFields_eq]
  have hnew : ∀ {f k}, f ∈ s.ownFields k → f ≠ s.nextHandle :=
    fun hf => ne_nextHandle hs.intact (contains_of_mem_ownFields hs hf)
  have htypes : ∀ {f k}, f ∈ s.ownFields k →
      (s.create name content).2.fieldType? f = s.fieldType? f := fun hf => by
    rw [fieldType?_eq, content?_create hs.intact, if_neg (hnew hf), fieldType?_eq]
  have hca : (s.create name content).2.Arranged := fun k => by
    rw [hfields, subtreesFirst_congr fun f hf => htypes hf, ha]
  have hadd := partitions_addField hcreate hca d s.nextHandle
  unfold Partitions at hadd ⊢
  rw [apply_bind_of_ok (create_apply name content s), apply_bind]
  rcases addField_apply d s.nextHandle (s.create name content).2 with ⟨fault, e⟩ | ⟨-, -, e⟩
  · rw [e] at hadd ⊢
    exact fun k => ⟨hfields k, fun f hf => htypes hf⟩
  · rw [e] at hadd ⊢
    intro k
    have herase : (s.ownFields k).erase s.nextHandle = s.ownFields k :=
      List.erase_of_not_mem fun h => hnew h rfl
    simpa only [fieldsMoved, hfields, herase] using hadd k

lemma partitions_setFieldType (f : NodeHandle) (type : FieldType) :
    (setFieldType f type).Partitions s fun _ => s.ownFields := by
  have hmakes := makes_reviseField f (fun c => { c with type }) s hs
  unfold Partitions setFieldType
  rw [apply_bind]
  by_cases hc : ∃ c, s.content? f = some (.fieldDescriptor c)
  · obtain ⟨c, hc⟩ := hc
    obtain ⟨t, e, hct, hht⟩ := reviseField_views hc fun c => { c with type }
    rw [e] at hmakes ⊢
    have ht := hs.changes hmakes
    have hfields : ∀ k, t.ownFields k = s.ownFields k := fun k => by
      rw [ownFields_eq, hht, ownFields_eq]
    -- where the field is not listed, all types are as before
    have hothers : ∀ k, f ∉ s.ownFields k → t.ownFields k = t.subtreesFirst (s.ownFields k) := by
      intro k hk
      rw [hfields, subtreesFirst_congr fun g hg => ?_, ha]
      have hne : g ≠ f := fun e => hk (e ▸ hg)
      rw [fieldType?_eq, hct, if_neg hne, fieldType?_eq]
    have hparent : ∀ k, f ∈ s.ownFields k → t.parent? f = some k := by
      intro k hk
      rw [← hfields, ownFields_eq] at hk
      rw [parent?_eq, ht.home_of_held rfl hk, Option.map_some]
    dsimp only
    rw [get_bind_apply]
    cases hp : t.parent? f with
    | none =>
      refine fun k => hothers k fun hk => ?_
      rw [hparent k hk] at hp
      cases hp
    | some p =>
      intro k
      have hsort := sameContents_sortFields t p
      show (t.sortFields p).ownFields k = (t.sortFields p).subtreesFirst (s.ownFields k)
      rw [hsort.subtreesFirst, ownFields_sortFields ht]
      split
      · rw [hfields]
      · next hk =>
        refine hothers k fun hf => hk ?_
        rw [hparent k hf] at hp
        exact Option.some.inj hp
  · have hi := SameNodes.invalidate s f
    rw [reviseField_of_not_field (not_exists.1 hc)]
    intro k
    refine ⟨?_, fun g _ => (SameContents.of_sameNodes hi).fieldType? g⟩
    rw [ownFields_eq, hi.held, ownFields_eq]

end

end Edit

/-! ## Sessions -/

namespace Store

variable {s t : Store}

/-- Whatever leaves the fields of classes and their types alone leaves them arranged. -/
lemma Arranged.within (ha : s.Arranged) (hs : s.Sound) {S : Scope} (h : Within S s t)
    (hslot : ¬ S.slots .descriptorFields)
    (hrevises : ∀ {c d}, S.revises c d → d.fieldType? = c.fieldType?) : t.Arranged := by
  have htypes : ∀ f, s.contains f = true → t.fieldType? f = s.fieldType? f := by
    intro f hf
    rw [contains_eq] at hf
    obtain ⟨c, hc⟩ := Option.isSome_iff_exists.1 hf
    obtain ⟨d, hd, hcd⟩ := h.revised hc
    rw [fieldType?_eq, hd, fieldType?_eq, hc]
    exact Scope.view_eq hrevises hcd
  intro k
  have hfields : t.ownFields k = s.ownFields k := by
    rw [ownFields_eq, h.held hslot, ownFields_eq]
  rw [hfields, subtreesFirst_congr fun f hf => htypes f (contains_of_mem_ownFields hs hf), ha]

lemma arranged_empty : Arranged {} := by
  intro k
  rw [ownFields_eq, held, get?_empty]
  rfl

/-- What is kept keeps its fields. -/
lemma Arranged.collect (ha : s.Arranged) (hs : s.Sound) : s.collect.2.Arranged := by
  intro k
  rw [ownFields_eq, held_collect]
  split
  · next hk =>
    have hall : ∀ f ∈ s.ownFields k, s.collect.2.fieldType? f = s.fieldType? f := by
      intro f hf
      rw [ownFields_eq] at hf
      rw [fieldType?_eq, content?_collect,
        if_pos (mem_survivors_of_owns hs.shaped hk ⟨.descriptorFields, rfl, hf⟩), fieldType?_eq]
    rw [← ownFields_eq, subtreesFirst_congr hall, ha]
  · rfl

lemma Arranged.operation (ha : s.Arranged) (hs : s.Sound) (ho : s.Sorted) (op : Operation) :
    (op.run s).Arranged := by
  cases hfields : op.sparesFields with
  | true => exact ha.within hs (Operation.within_sparingFields hs ho hfields) (fun h => h.1 rfl) id
  | false =>
    cases op with
    | createField d type name optional primitiveType =>
      exact (Edit.partitions_createField hs ha d type name optional primitiveType).arranged ha
    | addField d f => exact (Edit.partitions_addField hs ha d f).arranged ha
    | moveField d f => exact (Edit.partitions_moveField hs ha d f).arranged ha
    | setFieldType f type => exact (Edit.partitions_setFieldType hs ha f type).arranged ha
    | addChildClass f h =>
      exact ha.within hs (Edit.within_addChildClass (S := ⟨(· = .fieldChildren), fun _ => False, Eq⟩)
        f h rfl s hs ho) nofun fun h => by rw [h]
    | _ => cases hfields

lemma arranged_after (steps : List SessionStep) : (after steps).Arranged := by
  induction steps using List.reverseRecOn with
  | nil => exact arranged_empty
  | append_singleton steps step ih =>
    rw [after_append]
    have hs := sound_after steps
    cases step with
    | operate op => exact ih.operation hs (sorted_after steps) op
    | validate h => exact ih.within hs (S := sparingFields) (.of_sameNodes (sameNodes_validate (after steps) h)) (fun h => h.1 rfl) id
    | collect => exact ih.collect hs

/-- At every time in a session a class lists its additional fields before its tree fields.  Once a field has been
created, added or moved, the fields of every class are those that it had, without the field, and with it at the end
for the class that it comes to, sorted by their types but otherwise in their order.  Once a field has another type,
they are those that the class had, sorted in the same way. -/
theorem ownFields_stay_partitioned (steps : List SessionStep) :
    (∀ d, ∃ additional trees, (after steps).ownFields d = additional ++ trees ∧
      (∀ f ∈ additional, (after steps).fieldType? f = some .subtree) ∧
      ∀ f ∈ trees, (after steps).fieldType? f = some .tree) ∧
    (∀ d type name optional primitiveType,
      (Edit.createField d type name optional primitiveType).Partitions (after steps) fun f k =>
        if k = d then (after steps).ownFields k ++ [f] else (after steps).ownFields k) ∧
    (∀ d f, (Edit.addField d f).Partitions (after steps) fun _ => (after steps).fieldsMoved d f) ∧
    (∀ d f, (Edit.moveField d f).Partitions (after steps) fun _ => (after steps).fieldsMoved d f) ∧
    ∀ f type, (Edit.setFieldType f type).Partitions (after steps) fun _ => (after steps).ownFields := by
  have hs := sound_after steps
  have ho := sorted_after steps
  have ha := arranged_after steps
  generalize after steps = s at hs ho ha ⊢
  refine ⟨fun d => ⟨_, _, (ha d).symm, fun f hf => ?_, fun f hf => ?_⟩,
    Edit.partitions_createField hs ha, Edit.partitions_addField hs ha,
    Edit.partitions_moveField hs ha, Edit.partitions_setFieldType hs ha⟩
  · obtain ⟨hmem, htree⟩ := List.mem_filter.1 hf
    exact (subtree_iff_of_mem_ownFields hs ho hmem).2 (by simpa using htree)
  · exact isTreeField_iff.1 (List.mem_filter.1 hf).2

/-- An additional field is moved to a class with a tree field, and one that stays becomes a tree field. -/
example : [⟨2, 1⟩, ⟨4, 1⟩].map (after [.operate (.createOntology "o"),
    .operate (.createClass ⟨1, 1⟩ "a" .any none false false),
    .operate (.createClass ⟨1, 1⟩ "b" .any none false false),
    .operate (.createField ⟨2, 1⟩ .tree "x" false none),
    .operate (.createField ⟨2, 1⟩ .subtree "y" false none),
    .operate (.createField ⟨2, 1⟩ .subtree "z" false none),
    .operate (.createField ⟨4, 1⟩ .tree "u" false none),
    .operate (.moveField ⟨4, 1⟩ ⟨7, 1⟩), .operate (.setFieldType ⟨8, 1⟩ .tree)]).ownFields =
      [[⟨8, 1⟩, ⟨6, 1⟩], [⟨7, 1⟩, ⟨9, 1⟩]] := by
  decide +kernel

end Store

end Semdoc
