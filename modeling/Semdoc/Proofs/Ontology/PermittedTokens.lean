import Semdoc.Ontology.Syntax
import Semdoc.Proofs.Levels
import Semdoc.Proofs.Ontology.EffectiveFields
import Semdoc.Proofs.Ontology.Routes

/-!
# Permitted tokens

The fields behind transparent classes are met in the order of how many classes are in between.  So of everything
that is met more than once the first is the nearest.
-/

namespace Semdoc

namespace Walk

variable {α κ : Type*} {R : α → α → Prop} {x y : α} {l : List α}

/-- In an ordered list, the first of things with the same key is before the others. -/
lemma eq_or_of_mem_firstByKey [BEq κ] [LawfulBEq κ] {key : α → κ} {seen : List κ} (hl : l.Pairwise R)
    (hx : x ∈ firstByKey key seen l) (hy : y ∈ l) (hk : key y = key x) : y = x ∨ R x y := by
  induction l generalizing seen with
  | nil => cases hy
  | cons z l ih =>
    obtain ⟨hz, hl⟩ := List.pairwise_cons.1 hl
    have hnew := (nodup_map_firstByKey key seen (z :: l)).2 x hx
    rw [firstByKey] at hx
    split at hx
    · next hseen =>
      rcases List.mem_cons.1 hy with rfl | hy
      · rw [hk] at hseen
        exact absurd (by simpa using hseen) hnew
      · exact ih hl hx hy
    · rcases List.mem_cons.1 hx with rfl | hx
      · rcases List.mem_cons.1 hy with rfl | hy
        · exact .inl rfl
        · exact .inr (hz y hy)
      · rcases List.mem_cons.1 hy with rfl | hy
        · have h := (nodup_map_firstByKey key (key y :: seen) l).2 x hx
          exact absurd (hk ▸ List.mem_cons_self) h
        · exact ih hl hx hy

end Walk

/-- The tokens that a class or a field goes by. -/
def Content.tokenUses : Content → List TokenUse
  | structuredClass c => [c.tokens.start, c.tokens.stop, c.shortToken]
  | annotationClass tokens => [tokens.start, tokens.stop]
  | fieldDescriptor f => [f.tokens.start, f.tokens.stop]
  | _ => []

namespace Store

variable {s : Store} {start f g h : NodeHandle} {n m : Nat}

/-! ## Tokens -/

/-- A class or a field has a token with a number.  User tokens get theirs when they are registered. -/
def CarriesToken (s : Store) (h : NodeHandle) : Prop :=
  ∃ c, s.content? h = some c ∧ ∃ t ∈ c.tokenUses, t.id ≠ ReservedToken.empty.id

lemma descriptor_tokensOf (s : Store) (h : NodeHandle) (n : Nat) :
    (s.tokensOf h n).descriptor = h ∧ (s.tokensOf h n).depth = n := by
  unfold tokensOf
  split <;> exact ⟨rfl, rfl⟩

lemma isEmpty_tokensOf : (s.tokensOf h n).isEmpty = false ↔ s.CarriesToken h := by
  unfold tokensOf CarriesToken TokenSet.isEmpty
  cases hc : s.content? h with
  | none => simp
  | some c => cases c <;> simp [Content.tokenUses, imp_iff_not_or, or_assoc]

/-! ## What may start -/

/-- Fields that may start behind a number of transparent classes: the start itself if it is a field, otherwise its
fields, and the fields of the transparent classes that such fields may hold. -/
inductive FieldAt (s : Store) (start : NodeHandle) : Nat → NodeHandle → Prop where
  | start (hk : s.isA start .fieldDescriptor = true) : FieldAt s start 0 start
  | own {f : NodeHandle} (hk : s.isA start .fieldDescriptor = false)
      (hf : f ∈ s.effectiveFields start) : FieldAt s start 0 f
  | through {n : Nat} {f c g : NodeHandle} (h : FieldAt s start n f) (hc : s.Permits f c)
      (ht : s.isTransparent c = true) (hg : g ∈ s.effectiveFields c) : FieldAt s start (n + 1) g

/-- Fields, and the classes that they may hold, behind a number of transparent classes. -/
def Offers (s : Store) (start : NodeHandle) (n : Nat) (h : NodeHandle) : Prop :=
  s.FieldAt start n h ∨ ∃ f, s.FieldAt start n f ∧ s.Permits f h

/-- The fields with which the search begins. -/
def entryFields (s : Store) (start : NodeHandle) : List NodeHandle :=
  if s.isA start .fieldDescriptor then [start] else s.effectiveFields start

/-- The fields of the transparent classes that a field may hold. -/
def nextFields (s : Store) (f : NodeHandle) : List NodeHandle :=
  (s.transparentChildren f).flatMap s.effectiveFields

lemma FieldAt.entry (hf : f ∈ s.entryFields start) : s.FieldAt start 0 f := by
  unfold entryFields at hf
  split at hf
  · next hk =>
    obtain rfl := List.mem_singleton.1 hf
    exact .start hk
  · next hk => exact .own (by simpa using hk) hf

lemma FieldAt.next (h : s.FieldAt start n f) (hg : g ∈ s.nextFields f) : s.FieldAt start (n + 1) g := by
  obtain ⟨c, hc, hg⟩ := List.mem_flatMap.1 hg
  obtain ⟨hp, ht⟩ := mem_transparentChildren_iff.1 hc
  exact h.through hp ht hg

/-- The fields that may start are those that one comes to from the entry. -/
lemma FieldAt.induction {motive : Nat → NodeHandle → Prop}
    (entry : ∀ f ∈ s.entryFields start, motive 0 f)
    (next : ∀ n f, motive n f → ∀ g ∈ s.nextFields f, motive (n + 1) g)
    (h : s.FieldAt start n f) : motive n f := by
  induction h with
  | start hk => exact entry _ (by rw [entryFields, if_pos hk]; exact List.mem_singleton_self _)
  | own hk hf => exact entry _ (by rwa [entryFields, hk, if_neg Bool.false_ne_true])
  | through _ hc ht hg ih =>
    exact next _ _ ih _ (List.mem_flatMap.2 ⟨_, mem_transparentChildren_iff.2 ⟨hc, ht⟩, hg⟩)

lemma effectiveFields_subset_linked (c : NodeHandle) : s.effectiveFields c ⊆ s.linked := by
  by_cases hc : s.isA c .structuredClass = true
  · rw [effectiveFields_eq hc]
    refine List.append_subset.2 ⟨fun f hf => ?_, fun f hf => ?_⟩
    · obtain ⟨d, -, hd⟩ := List.mem_flatMap.1 ((additionalFields_sublist c).subset hf)
      exact s.listed_subset_linked d .descriptorFields hd
    · have hf := Walk.mem_of_mem_firstByKey (List.mem_of_find?_eq_some (Option.mem_toList.1 hf))
      obtain ⟨d, -, hd⟩ := List.mem_flatMap.1 hf
      exact s.listed_subset_linked d .descriptorFields hd
  · rw [effectiveFields_of_not_class hc]
    exact s.listed_subset_linked c .descriptorFields

lemma nextFields_subset (start f : NodeHandle) : s.nextFields f ⊆ start :: s.linked := by
  intro g hg
  obtain ⟨c, -, hg⟩ := List.mem_flatMap.1 hg
  exact List.mem_cons_of_mem start (effectiveFields_subset_linked c hg)

lemma entryFields_subset (start : NodeHandle) : s.entryFields start ⊆ start :: s.linked := by
  unfold entryFields
  split
  · exact List.cons_subset.2 ⟨List.mem_cons_self, List.nil_subset _⟩
  · exact fun f hf => List.mem_cons_of_mem start (effectiveFields_subset_linked start hf)

/-! ## The queue -/

lemma fieldAt_iff_levelAt : s.FieldAt start n f ↔ Walk.LevelAt s.nextFields (s.entryFields start) n f := by
  constructor
  · exact FieldAt.induction (fun f hf => .entry hf) fun n f h g hg => h.next hg
  · intro h
    induction h with
    | entry hf => exact .entry hf
    | next _ hg ih => exact ih.next hg

/-- The search is a walk from fields to fields. -/
lemma fieldsByDepth_eq_byLevel (s : Store) (rounds : Nat) (work seen : List (NodeHandle × Nat)) :
    s.fieldsByDepth rounds work seen = Walk.byLevel s.nextFields rounds work seen := by
  induction rounds generalizing work seen with
  | zero => rfl
  | succ rounds ih =>
    rw [fieldsByDepth, Walk.byLevel]
    split
    · next hnil => rw [show work.filter (fun e => !(seen.map Prod.fst).contains e.1) = [] from hnil]
    · next f n rest hrest =>
      rw [show work.filter (fun e => !(seen.map Prod.fst).contains e.1) = (f, n) :: rest from hrest]
      exact ih _ _

/-- The fields that the search meets. -/
def fieldsMet (s : Store) (start : NodeHandle) : List (NodeHandle × Nat) :=
  s.fieldsByDepth (s.extent + 1) ((s.entryFields start).map (·, 0)) []

lemma fieldsMet_eq (s : Store) (start : NodeHandle) :
    s.fieldsMet start = Walk.levels s.nextFields (s.entryFields start) (s.extent + 1) :=
  s.fieldsByDepth_eq_byLevel _ _ _

/-- The search ends with an empty queue. -/
lemma drains_fieldsMet (s : Store) (start : NodeHandle) :
    Walk.Drains s.nextFields (s.entryFields start) [] ((s.fieldsMet start).map Prod.fst) := by
  rw [fieldsMet_eq, Walk.map_fst_levels]
  exact Walk.drains_breadthFirst (fun f _ => nextFields_subset start f) (entryFields_subset start)
    (List.nil_subset _) List.nodup_nil (by simpa using s.length_linked_lt)

/-- Every field that may start is met, with no more classes in between. -/
lemma FieldAt.near (h : s.FieldAt start n f) : Walk.Near (s.fieldsMet start) f n := by
  rw [fieldsMet_eq]
  exact (fieldAt_iff_levelAt.1 h).near (fun f _ => nextFields_subset start f)
    (entryFields_subset start) (s.length_cons_linked_lt start)

lemma fieldAt_of_mem_fieldsMet (h : (f, n) ∈ s.fieldsMet start) : s.FieldAt start n f := by
  rw [fieldsMet_eq] at h
  exact fieldAt_iff_levelAt.2 (Walk.levelAt_of_mem_levels h)

/-! ## Permitted tokens -/

/-- What is offered, in the order in which it is met. -/
def offered (s : Store) (start : NodeHandle) : List TokenSet :=
  ((s.fieldsMet start).flatMap fun e => (e.1 :: s.permittedChildren e.1).map (s.tokensOf · e.2)).filter
    fun t => !t.isEmpty

lemma permittedTokens_eq (s : Store) (start : NodeHandle) :
    s.permittedTokens start = Walk.firstByKey TokenSet.descriptor [] (s.offered start) := rfl

lemma mem_offered_iff {t : TokenSet} : t ∈ s.offered start ↔
    ∃ f n h, (f, n) ∈ s.fieldsMet start ∧ (h = f ∨ s.Permits f h) ∧ s.CarriesToken h ∧
      t = s.tokensOf h n := by
  rw [offered, List.mem_filter, List.mem_flatMap, Bool.not_eq_true']
  constructor
  · rintro ⟨⟨⟨f, n⟩, he, ht⟩, hempty⟩
    obtain ⟨h, hh, rfl⟩ := List.mem_map.1 ht
    refine ⟨f, n, h, he, ?_, isEmpty_tokensOf.1 hempty, rfl⟩
    rwa [List.mem_cons, mem_permittedChildren_iff] at hh
  · rintro ⟨f, n, h, he, hh, hc, rfl⟩
    rw [← mem_permittedChildren_iff, ← List.mem_cons] at hh
    exact ⟨⟨_, he, List.mem_map_of_mem hh⟩, isEmpty_tokensOf.2 hc⟩

/-- What is behind fewer classes is met earlier. -/
lemma pairwise_offered (s : Store) (start : NodeHandle) :
    (s.offered start).Pairwise fun t u => t.depth ≤ u.depth := by
  have hordered : (s.fieldsMet start).Pairwise fun a b => a.2 ≤ b.2 := by
    rw [fieldsMet_eq]
    exact Walk.pairwise_levels ..
  refine List.Pairwise.filter _ (List.pairwise_flatMap.2 ⟨fun e _ => ?_, ?_⟩)
  · refine List.pairwise_map.2 (List.pairwise_of_forall fun a b => ?_)
    rw [(s.descriptor_tokensOf a e.2).2, (s.descriptor_tokensOf b e.2).2]
  · refine hordered.imp fun {e e'} hle t ht u hu => ?_
    obtain ⟨a, -, rfl⟩ := List.mem_map.1 ht
    obtain ⟨b, -, rfl⟩ := List.mem_map.1 hu
    rwa [(s.descriptor_tokensOf a e.2).2, (s.descriptor_tokensOf b e'.2).2]

/-- What is offered with a number of classes in between is offered to be met with no more. -/
lemma Offers.exists_mem_offered (h' : s.Offers start n h) (hc : s.CarriesToken h) :
    ∃ m ≤ n, s.tokensOf h m ∈ s.offered start := by
  rcases h' with hf | ⟨f, hf, hp⟩
  · obtain ⟨m, hm, hle⟩ := hf.near
    exact ⟨m, hle, mem_offered_iff.2 ⟨h, m, h, hm, .inl rfl, hc, rfl⟩⟩
  · obtain ⟨m, hm, hle⟩ := hf.near
    exact ⟨m, hle, mem_offered_iff.2 ⟨f, m, h, hm, .inr hp, hc, rfl⟩⟩

/-- What is listed carries a token, and has the least number of classes in between. -/
lemma isLeast_of_mem_permittedTokens {t : TokenSet} (ht : t ∈ s.permittedTokens start) :
    s.CarriesToken t.descriptor ∧ IsLeast {n | s.Offers start n t.descriptor} t.depth ∧
      t = s.tokensOf t.descriptor t.depth := by
  rw [permittedTokens_eq] at ht
  obtain ⟨f, n, h, hf, hh, hc, e⟩ := mem_offered_iff.1 (Walk.mem_of_mem_firstByKey ht)
  obtain ⟨hdescriptor, hdepth⟩ := s.descriptor_tokensOf h n
  have hfield := fieldAt_of_mem_fieldsMet hf
  have hoffers : s.Offers start n h := by
    rcases hh with rfl | hp
    · exact .inl hfield
    · exact .inr ⟨f, hfield, hp⟩
  rw [← e] at hdescriptor hdepth
  rw [hdescriptor, hdepth]
  refine ⟨hc, ⟨hoffers, fun k hk => ?_⟩, e⟩
  obtain ⟨m, hmk, hm⟩ := Offers.exists_mem_offered hk hc
  have hkey : (s.tokensOf h m).descriptor = t.descriptor := by
    rw [hdescriptor, (s.descriptor_tokensOf h m).1]
  -- another one with the same descriptor comes later in the list
  rcases Walk.eq_or_of_mem_firstByKey (s.pairwise_offered start) ht hm hkey with rfl | hle
  · rw [(s.descriptor_tokensOf h m).2] at hdepth
    exact hdepth ▸ hmk
  · rw [hdepth, (s.descriptor_tokensOf h m).2] at hle
    exact Nat.le_trans hle hmk

/-- What may start inside a class or a field is listed if it has tokens: the fields that one comes to through
transparent classes and the classes that these may hold, each once and with the least number of classes in
between, those with fewer in between first.  The search comes to an end by itself however classes contain or
inherit from each other: it works off its queue, and more rounds change nothing in the walks through subclasses and
along superclasses in it. -/
theorem permittedTokens_ranked (s : Store) (start : NodeHandle) :
    (∀ t, t ∈ s.permittedTokens start ↔ ∃ h n, s.CarriesToken h ∧
      IsLeast {n | s.Offers start n h} n ∧ t = s.tokensOf h n) ∧
    ((s.permittedTokens start).map TokenSet.descriptor).Nodup ∧
    (s.permittedTokens start).Pairwise (fun t u => t.depth ≤ u.depth) ∧
    (∀ met, Walk.Drains s.nextFields (s.entryFields start) [] met ↔
      (s.fieldsMet start).map Prod.fst = met) ∧
    (∀ more field, Walk.breadthFirst s.subclasses (s.extent + more) (s.declaredChildren field) [] =
      s.permittedChildren field) ∧
    ∀ more c, Walk.follow (fun c => (s.superclass? c).bind s.live?) (s.extent + 1 + more)
      (s.live? c) [] = s.classLine c := by
  have hdrains := drains_fieldsMet s start
  refine ⟨fun t => ⟨fun ht => ?_, ?_⟩, (Walk.nodup_map_firstByKey ..).1,
    (s.pairwise_offered start).sublist (Walk.firstByKey_sublist ..),
    fun met => ⟨hdrains.unique, fun h => h ▸ hdrains⟩,
    fun more field => breadthFirst_subclasses_add field more,
    fun more c => follow_superclass_add c more⟩
  · obtain ⟨hc, hleast, e⟩ := isLeast_of_mem_permittedTokens ht
    exact ⟨_, _, hc, hleast, e⟩
  · rintro ⟨h, n, hc, hleast, rfl⟩
    obtain ⟨m, -, hm⟩ := Offers.exists_mem_offered hleast.1 hc
    obtain hseen | ⟨t, ht, hkey⟩ := Walk.exists_mem_firstByKey TokenSet.descriptor [] hm
    · cases hseen
    · rw [(s.descriptor_tokensOf h m).1] at hkey
      obtain ⟨-, hleast', e⟩ := isLeast_of_mem_permittedTokens ht
      rw [hkey] at hleast' e
      rw [hleast.unique hleast', ← e]
      exact ht

end Store

end Semdoc
