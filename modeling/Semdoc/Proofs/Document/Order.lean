import Mathlib.Data.List.Sort
import Semdoc.Document.Counts
import Semdoc.Proofs.Document.Ways
import Semdoc.Proofs.Session.Collection

/-!
# The order of a document

The nodes in the tree of a document are ordered by the ways to them from the root, and to sort them by this
order is to walk through the tree: a node before what is in its fields, the fields by number, and what is in a
field as it is listed.  A root that is kept when its document is dropped goes on to name the document, so that
its tree is still taken for that of a document.
-/

namespace Semdoc

open Relation

lemma Content.cases_structureNode {c : Content} (hc : c.tag.isA .structureNode = true) :
    (∃ e, c = .structuredEntity e) ∨ (∃ v, c = .documentPrimitive v) ∨ ∃ mark, c = .anchor mark := by
  have htag : c.tag ∈ TypeTag.ofContent := by
    rcases TypeTag.cases_structureNode hc with h | h | h | h
    · exact absurd h c.tag_ne_structureNode
    all_goals rw [h]; decide
  rcases Content.cases_ofContent htag with ⟨_, rfl⟩ | he | hv | ha | ⟨_, _, _, rfl⟩
  · exact absurd hc (by dsimp only [tag]; decide +kernel)
  · exact .inl he
  · exact .inr (.inl hv)
  · exact .inr (.inr ha)
  · exact absurd hc (by dsimp only [tag]; decide +kernel)

/-- What is in the tree of a document has no slots but fields. -/
lemma Content.slots_of_structureNode {c : Content} (hc : c.tag.isA .structureNode = true) :
    c.listSlots = [] ∧ c.singleSlot? = none := by
  rcases c.cases_structureNode hc with ⟨_, rfl⟩ | ⟨_, rfl⟩ | ⟨_, rfl⟩
  all_goals exact ⟨rfl, rfl⟩

lemma TypeTag.isA_structureNode {t : TypeTag} (h : t.isA .structuredEntity = true) :
    t.isA .structureNode = true := by
  rw [(isA_iff_eq (by decide)).1 h]
  decide +kernel

namespace Node

lemma Shaped.slots_of_structureNode {n : Node} (hn : n.Shaped)
    (hc : n.content.tag.isA .structureNode = true) :
    n.slots = (List.range n.rosters.length).map .entityField := by
  have hslots := hn.slots_eq
  split at hslots
  · exact hslots
  · rw [(Content.slots_of_structureNode hc).1] at hslots
    rw [hslots, List.map_eq_nil_iff.1 hslots]
    rfl

lemma Shaped.flatMap_rosters {n : Node} (hn : n.Shaped) :
    n.rosters.flatMap (·.2.items) = n.slots.flatMap n.listed := by
  rw [slots, List.flatMap_map]
  refine List.flatMap_congr fun e he => ?_
  rw [listed_eq, hn.rosterAt_of_mem he]

end Node

namespace Store

variable {s : Store} {top h c d : NodeHandle} {w way : List Step} {fuel : Nat}

/-! ## The way up -/

/-- How the way up from a node ends, told without counting rounds: with a document, or with a node that is not
in the tree of one. -/
inductive Climb (s : Store) : NodeHandle → List Step → Option Place → Prop where
  | up {h owner : NodeHandle} {field position : Nat} {steps : List Step} {found : Option Place}
      (hh : s.home? h = some ⟨owner, .entityField field⟩)
      (hp : (s.fieldContent owner field).findIdx? (· == h) = some position)
      (hup : Climb s owner (⟨field, position⟩ :: steps) found) : Climb s h steps found
  | document {h d : NodeHandle} {steps : List Step} (hh : s.home? h = some ⟨d, .documentRoot⟩) :
      Climb s h steps (some ⟨d, steps⟩)
  | unlisted {h owner : NodeHandle} {field : Nat} {steps : List Step}
      (hh : s.home? h = some ⟨owner, .entityField field⟩)
      (hp : (s.fieldContent owner field).findIdx? (· == h) = none) : Climb s h steps none
  | outside {h : NodeHandle} {steps : List Step}
      (hf : ∀ owner field, s.home? h ≠ some ⟨owner, .entityField field⟩)
      (hd : ∀ d, s.home? h ≠ some ⟨d, .documentRoot⟩) : Climb s h steps none

section Sound

variable (hs : s.Sound)
include hs

/-- The way up comes to its end before the rounds do. -/
lemma Sound.climb_of_passed {seen : List NodeHandle} (hseen : s.Passed seen h)
    (hfuel : s.cells.size < seen.length + fuel) (steps : List Step) :
    s.Climb h steps (s.placeAbove fuel h steps) := by
  induction fuel generalizing h seen steps with
  | zero => exact absurd hseen.length_le (Nat.not_le_of_lt hfuel)
  | succ fuel ih =>
    unfold placeAbove
    split
    · next owner field hh =>
      split
      · next position hp =>
        have hown : s.IsParent owner h := isParent_of_home? hh
        refine .up hh hp (ih (hseen.up hs.acyclic hown) ?_ _)
        rw [List.length_cons]
        omega
      · next hp => exact .unlisted hh hp
    · next d hh => exact .document hh
    · next hf hd => exact .outside hf hd

/-- The place of a node is what is found on the whole way up. -/
lemma Sound.climb_place? (h : NodeHandle) : s.Climb h [] (s.place? h) :=
  hs.climb_of_passed (.nil s h) (by simp [bound]) []

/-- Going up, one finds the way down. -/
lemma Sound.placeAbove_of_way (hroot : s.home? top = some ⟨d, .documentRoot⟩) (hw : s.Way top w h)
    (steps : List Step) (hfuel : w.length < fuel) :
    s.placeAbove fuel h steps = some ⟨d, w ++ steps⟩ := by
  induction fuel generalizing w h steps with
  | zero => exact absurd hfuel (Nat.not_lt_zero _)
  | succ fuel ih =>
    unfold placeAbove
    rcases hw.cases_tail with ⟨rfl, rfl⟩ | ⟨k, field, position, v, rfl, hv, hh⟩
    · rw [hroot]
      rfl
    · rw [hs.home_of_fieldContent (List.mem_of_getElem? hh)]
      rw [List.length_append, List.length_singleton] at hfuel
      simp only [hs.findIdx?_fieldContent hh]
      rw [ih hv _ (by omega), List.append_assoc]
      rfl

/-- A node has a place exactly if a way leads to it from a node that is the root of a document according to
its owner. -/
lemma Sound.place?_eq_some_iff : s.place? h = some ⟨d, way⟩ ↔
    ∃ root, s.home? root = some ⟨d, .documentRoot⟩ ∧ s.Way root way h := by
  constructor
  · intro hp
    obtain ⟨root, pre, rfl, hroot, hw⟩ := exists_way_of_placeAbove hp
    exact ⟨root, hroot, by rwa [List.append_nil]⟩
  · rintro ⟨root, hroot, hw⟩
    rw [place?, hs.placeAbove_of_way hroot hw [] (hs.length_way_lt hw), List.append_nil]

end Sound

/-! ## The walk down -/

/-- A node is in the tree that begins at another one. -/
def Reaches (s : Store) (top h : NodeHandle) : Prop := ∃ way, s.Way top way h

/-- A list is that of everything in the fields of a node, field after field. -/
def ListsFields (s : Store) (h : NodeHandle) (l : List NodeHandle) : Prop :=
  ∃ fields, (∀ i, fields ≤ i → s.fieldContent h i = []) ∧
    l = (List.range fields).flatMap (s.fieldContent h)

namespace ListsFields

variable {l : List NodeHandle}

lemma mem_iff (hl : s.ListsFields h l) :
    c ∈ l ↔ ∃ step : Step, (s.fieldContent h step.field)[step.position]? = some c := by
  obtain ⟨fields, hout, rfl⟩ := hl
  rw [List.mem_flatMap]
  constructor
  · rintro ⟨i, -, hc⟩
    obtain ⟨j, hj⟩ := List.mem_iff_getElem?.1 hc
    exact ⟨⟨i, j⟩, hj⟩
  · rintro ⟨⟨i, j⟩, hj⟩
    have hc := List.mem_of_getElem? hj
    refine ⟨i, List.mem_range.2 (Nat.lt_of_not_le fun hi => ?_), hc⟩
    rw [hout i hi] at hc
    cases hc

/-- What is listed is in the order of the steps that lead to it. -/
lemma pairwise (hl : s.ListsFields h l) : l.Pairwise fun c c' => ∃ a b : Step,
    a.compareSteps b = .lt ∧ (s.fieldContent h a.field)[a.position]? = some c ∧
      (s.fieldContent h b.field)[b.position]? = some c' := by
  obtain ⟨fields, -, rfl⟩ := hl
  refine List.pairwise_flatMap.2 ⟨fun i _ => ?_, List.pairwise_lt_range.imp ?_⟩
  · exact List.pairwise_iff_getElem.2 fun j k hj hk hjk => ⟨⟨i, j⟩, ⟨i, k⟩,
      Step.compareSteps_of_position i hjk, List.getElem?_eq_getElem hj, List.getElem?_eq_getElem hk⟩
  · intro i i' hi c hc c' hc'
    obtain ⟨j, hj⟩ := List.mem_iff_getElem?.1 hc
    obtain ⟨j', hj'⟩ := List.mem_iff_getElem?.1 hc'
    exact ⟨⟨i, j⟩, ⟨i', j'⟩, Step.compareSteps_of_field hi j j', hj, hj'⟩

end ListsFields

/-- A walk that goes on with what is in fields meets everything in the tree, in the order of the ways. -/
lemma Sound.preorder_spec (hs : s.Sound) {below : NodeHandle → List NodeHandle}
    (hbelow : ∀ x, s.Reaches top x → s.ListsFields x (below x)) (hw : s.Way top w h)
    (hfuel : s.bound ≤ w.length + fuel) :
    (∀ x, x ∈ Walk.preorder below fuel h ↔ s.Reaches h x) ∧
      (Walk.preorder below fuel h).Pairwise s.Precedes := by
  induction fuel generalizing w h with
  | zero => exact absurd (hs.length_way_lt hw) (Nat.not_lt_of_le hfuel)
  | succ fuel ih =>
    have hl := hbelow h ⟨w, hw⟩
    have hchild : ∀ {c} (step : Step), (s.fieldContent h step.field)[step.position]? = some c →
        (∀ x, x ∈ Walk.preorder below fuel c ↔ s.Reaches c x) ∧
          (Walk.preorder below fuel c).Pairwise s.Precedes := by
      intro c step hc
      refine ih (hw.snoc hc) ?_
      rw [List.length_append, List.length_singleton]
      omega
    rw [Walk.preorder]
    refine ⟨fun x => ?_, List.pairwise_cons.2 ⟨fun x hx => ?_, List.pairwise_flatMap.2 ⟨?_, ?_⟩⟩⟩
    · rw [List.mem_cons, List.mem_flatMap]
      constructor
      · rintro (rfl | ⟨c, hc, hx⟩)
        · exact ⟨[], .here x⟩
        · obtain ⟨step, hstep⟩ := hl.mem_iff.1 hc
          obtain ⟨v, hv⟩ := ((hchild step hstep).1 x).1 hx
          exact ⟨step :: v, .down hstep hv⟩
      · rintro ⟨v, hv⟩
        cases hv with
        | here => exact .inl rfl
        | @down _ c _ field position v hc hv =>
          exact .inr ⟨c, hl.mem_iff.2 ⟨⟨field, position⟩, hc⟩,
            ((hchild ⟨field, position⟩ hc).1 x).2 ⟨v, hv⟩⟩
    · obtain ⟨c, hc, hx⟩ := List.mem_flatMap.1 hx
      obtain ⟨step, hstep⟩ := hl.mem_iff.1 hc
      obtain ⟨v, hv⟩ := ((hchild step hstep).1 x).1 hx
      exact ⟨h, [], step :: v, .here h, .down hstep hv, rfl⟩
    · intro c hc
      obtain ⟨step, hstep⟩ := hl.mem_iff.1 hc
      exact (hchild step hstep).2
    · refine hl.pairwise.imp ?_
      rintro c c' ⟨a, b, hab, hc, hc'⟩ x hx y hy
      obtain ⟨v, hv⟩ := ((hchild a hc).1 x).1 hx
      obtain ⟨v', hv'⟩ := ((hchild b hc').1 y).1 hy
      exact ⟨h, a :: v, b :: v', .down hc hv, .down hc' hv', Place.compareWays_cons_of_lt hab v v'⟩

/-- Two lists of the same nodes in the order of the ways are the same. -/
lemma Sound.eq_of_precedes (hs : s.Sound) {l l' : List NodeHandle} (hl : l.Pairwise s.Precedes)
    (hl' : l'.Pairwise s.Precedes) (hmem : ∀ x, x ∈ l ↔ x ∈ l') : l = l' := by
  have : Std.Asymm s.Precedes := ⟨fun _ _ => hs.precedes_asymm⟩
  exact hl.eq_of_mem_iff hl' hmem

/-- What is below a node in the walk from another one. -/
def belowFrom (s : Store) (entity h : NodeHandle) : List NodeHandle :=
  if h == entity || s.isA h .structuredEntity then
    if (s.entity? h).isSome then
      ((s.get? h).map fun n => n.rosters.flatMap (·.2.items)).getD []
    else []
  else []

lemma contentBelow_eq (s : Store) (entity : NodeHandle) :
    s.contentBelow entity = Walk.preorder (s.belowFrom entity) s.bound entity := rfl

/-- The walk goes on with everything in the fields. -/
lemma listsFields_belowFrom (hshaped : s.Shaped) (entity : NodeHandle)
    (hh : s.isA h .structureNode = true) : s.ListsFields h (s.belowFrom entity h) := by
  obtain ⟨c, hc, hk⟩ := exists_content_of_isA hh
  obtain ⟨n, hn, rfl⟩ := Option.map_eq_some_iff.1 hc
  have hslots := (hshaped h n hn).slots_of_structureNode hk
  have hfield : ∀ i, s.fieldContent h i = n.listed (.entityField i) := fun i => by
    rw [fieldContent, listed, hn]
    rfl
  refine ⟨n.rosters.length, fun i hi => ?_, ?_⟩
  · rw [hfield]
    by_contra hne
    obtain ⟨x, hx⟩ := List.exists_mem_of_ne_nil _ hne
    rw [Node.listed_eq] at hx
    have hm := Node.mem_slots_of_mem_items hx
    rw [hslots] at hm
    obtain ⟨j, hj, hij⟩ := List.mem_map.1 hm
    cases hij
    exact absurd (List.mem_range.1 hj) (Nat.not_lt_of_le hi)
  · have hall : n.rosters.flatMap (·.2.items) =
        (List.range n.rosters.length).flatMap (s.fieldContent h) := by
      rw [(hshaped h n hn).flatMap_rosters, hslots, List.flatMap_map]
      exact List.flatMap_congr fun i _ => (hfield i).symm
    refine Eq.trans ?_ hall
    have hisA : s.isA h .structuredEntity = n.content.tag.isA .structuredEntity := by
      rw [isA_eq, hc]
      rfl
    unfold belowFrom entity?
    rw [hisA, hc, hn]
    rcases Content.cases_structureNode hk with ⟨e, he⟩ | ⟨v, he⟩ | ⟨mark, he⟩
    · rw [he, if_pos (by rw [Content.tag, TypeTag.isA_self, Bool.or_true])]
      rfl
    all_goals
      have hnil : n.rosters = [] := by
        have hslots := (hshaped h n hn).slots_eq
        rw [he] at hslots
        exact List.map_eq_nil_iff.1 hslots
      rw [he, hnil]
      exact ite_self _

section Tree

variable (hs : s.Sound) (ho : s.Sorted) {root a b : NodeHandle}
  (hroot : s.home? root = some ⟨d, .documentRoot⟩)
include hs ho hroot

/-- What is in the tree of a document is an entity, a value or an anchor. -/
lemma Sorted.isA_of_reaches (hh : s.Reaches root h) : s.isA h .structureNode = true := by
  obtain ⟨w, hw⟩ := hh
  rcases hw.cases_tail with ⟨-, rfl⟩ | ⟨k, field, position, v, -, -, hc⟩
  · obtain ⟨c, hc, hk⟩ := exists_content_of_isA (ho.fits hroot rfl)
    rw [isA_eq, hc]
    exact TypeTag.isA_structureNode hk
  · exact ho.fits (hs.home_of_fieldContent (List.mem_of_getElem? hc)) rfl

/-- Whoever is owned by a node in the tree of a document is in one of its fields. -/
lemma Sorted.exists_step_of_isParent (ha : s.Reaches root a) (hp : s.IsParent a b) :
    ∃ field position : Nat, (s.fieldContent a field)[position]? = some b := by
  obtain ⟨content, hc, hk⟩ := exists_content_of_isA (ho.isA_of_reaches hs hroot ha)
  obtain ⟨n, hn, rfl⟩ := Option.map_eq_some_iff.1 hc
  obtain ⟨⟨owner, slot⟩, hhome, rfl⟩ := Option.map_eq_some_iff.1 ((parent?_eq s b).symm.trans hp)
  obtain ⟨-, hb⟩ := hs.held_of_home hhome (contains_iff.2 ⟨n, hn⟩)
  cases hsingle : slot.isSingle with
  | true =>
    rw [held_of_get? hn, Node.held, if_pos hsingle, (Content.slots_of_structureNode hk).2,
      if_neg (by simp)] at hb
    cases hb
  | false =>
    have hm : slot ∈ n.slots := by
      rw [held_of_get? hn, n.held_of_not_isSingle hsingle] at hb
      exact Node.mem_slots_of_mem_items hb
    rw [(hs.shaped owner n hn).slots_of_structureNode hk] at hm
    obtain ⟨field, -, rfl⟩ := List.mem_map.1 hm
    rw [← listed_eq_held owner rfl] at hb
    obtain ⟨position, hpos⟩ := List.mem_iff_getElem?.1 hb
    exact ⟨field, position, hpos⟩

lemma Sorted.exists_way_of_transGen (ha : s.Reaches root a) (h : TransGen s.IsParent a b) :
    ∃ w, w ≠ [] ∧ s.Way a w b := by
  induction h with
  | single hp =>
    obtain ⟨field, position, hb⟩ := ho.exists_step_of_isParent hs hroot ha hp
    exact ⟨_, List.cons_ne_nil _ _, .down hb (.here _)⟩
  | tail _ hp ih =>
    obtain ⟨w, hw, hway⟩ := ih
    obtain ⟨v, hv⟩ := ha
    obtain ⟨field, position, hb⟩ := ho.exists_step_of_isParent hs hroot ⟨_, hv.append hway⟩ hp
    exact ⟨_, List.append_ne_nil_of_right_ne_nil w (List.cons_ne_nil _ _), hway.snoc hb⟩

/-- The walk below a node in the tree of a document, and from any node above it with as many rounds as are
left. -/
lemma Sorted.contentBelow_spec (entity : NodeHandle) {w : List Step} (hh : s.Reaches root h)
    (hw : s.Way h w a) (hfuel : s.bound ≤ w.length + fuel) :
    (∀ x, x ∈ Walk.preorder (s.belowFrom entity) fuel a ↔ s.Reaches a x) ∧
      (Walk.preorder (s.belowFrom entity) fuel a).Pairwise s.Precedes := by
  refine hs.preorder_spec (fun x hx => listsFields_belowFrom hs.shaped entity ?_) hw hfuel
  obtain ⟨p, hp⟩ := hh
  obtain ⟨q, hq⟩ := hx
  exact ho.isA_of_reaches hs hroot ⟨p ++ q, hp.append hq⟩

lemma Sorted.mem_contentBelow_iff (hh : s.Reaches root h) (x : NodeHandle) :
    x ∈ s.contentBelow h ↔ s.Reaches h x :=
  (ho.contentBelow_spec hs hroot h hh (.here h) (Nat.le_add_left _ _)).1 x

lemma Sorted.pairwise_contentBelow (hh : s.Reaches root h) :
    (s.contentBelow h).Pairwise s.Precedes :=
  (ho.contentBelow_spec hs hroot h hh (.here h) (Nat.le_add_left _ _)).2

/-- The walk is at a node, and then below the nodes in its fields, one after the other. -/
lemma Sorted.contentBelow_eq_cons (hh : s.Reaches root h) :
    ∃ fields, (∀ i, fields ≤ i → s.fieldContent h i = []) ∧ s.contentBelow h =
      h :: (List.range fields).flatMap fun i => (s.fieldContent h i).flatMap s.contentBelow := by
  obtain ⟨fields, hout, hl⟩ := listsFields_belowFrom hs.shaped h
    (ho.isA_of_reaches hs hroot hh)
  refine ⟨fields, hout, ?_⟩
  rw [contentBelow_eq, bound, Walk.preorder, hl, List.flatMap_assoc]
  refine congrArg (h :: ·) (List.flatMap_congr fun i _ => List.flatMap_congr fun c hc => ?_)
  -- one round less is enough for what is one step further away
  obtain ⟨j, hj⟩ := List.mem_iff_getElem?.1 hc
  have hfuel : s.bound ≤ [Step.mk i j].length + s.cells.size := by
    rw [bound, List.length_singleton, Nat.add_comm]
  obtain ⟨hmem, hpair⟩ := ho.contentBelow_spec hs hroot h hh (.down hj (.here c)) hfuel
  have hc : s.Reaches root c := by
    obtain ⟨w, hw⟩ := hh
    exact ⟨_, hw.snoc hj⟩
  refine hs.eq_of_precedes hpair (ho.pairwise_contentBelow hs hroot hc) fun x => ?_
  rw [hmem, ho.mem_contentBelow_iff hs hroot hc]

end Tree

/-! ## Comparing nodes -/

/-- Nodes of the same document are compared by their ways. -/
lemma Sound.compareInDocument_eq (hs : s.Sound) {root a b : NodeHandle} {p q : List Step}
    (hroot : s.home? root = some ⟨d, .documentRoot⟩) (ha : s.Way root p a) (hb : s.Way root q b) :
    s.compareInDocument a b = some (Place.compareWays p q) := by
  unfold compareInDocument
  rw [hs.place?_eq_some_iff.2 ⟨root, hroot, ha⟩, hs.place?_eq_some_iff.2 ⟨root, hroot, hb⟩]
  exact if_pos (beq_iff_eq.2 rfl)

/-- A document has one root, also when it is gone. -/
lemma root_unique (steps : List SessionStep) {d root root' : NodeHandle}
    (h : (after steps).home? root = some ⟨d, .documentRoot⟩)
    (h' : (after steps).home? root' = some ⟨d, .documentRoot⟩) : root = root' := by
  induction steps using List.reverseRecOn with
  | nil =>
    rw [show after [] = {} from rfl, Store.home?, get?_empty] at h
    cases h
  | append_singleton steps step ih =>
    have hs := sound_after (steps ++ [step])
    cases hl : (after (steps ++ [step])).contains d with
    | true =>
      have hr := documentRoot?_eq_some_iff.2 (hs.held_of_home h hl).2
      exact Option.some.inj (hr.symm.trans (documentRoot?_eq_some_iff.2 (hs.held_of_home h' hl).2))
    | false =>
      rw [after_append] at h h' hl
      cases step with
      | operate op =>
        have hc := op.changes (sound_after steps)
        exact ih (hc.home?_of_dead (sound_after steps) h hl).1
          (hc.home?_of_dead (sound_after steps) h' hl).1
      | validate k =>
        have hm := sameNodes_validate (after steps) k
        exact ih ((hm.home? root).symm.trans h) ((hm.home? root').symm.trans h')
      | collect =>
        change (after steps).collect.2.home? root = _ at h
        change (after steps).collect.2.home? root' = _ at h'
        rw [home?_collect] at h h'
        split at h
        · split at h'
          · exact ih h h'
          · cases h'
        · cases h

/-- The tree of a document begins at a node.  The document may have been dropped and the node kept as a
root. -/
def TreeOf (steps : List SessionStep) (d root : NodeHandle) : Prop :=
  (after steps).documentRoot? d = some root ∨ Stranded steps root ⟨d, .documentRoot⟩

lemma treeOf_iff {steps : List SessionStep} {d root : NodeHandle} :
    TreeOf steps d root ↔ (after steps).home? root = some ⟨d, .documentRoot⟩ := by
  have hs := sound_after steps
  constructor
  · rintro (hr | h)
    · exact hs.home_of_held rfl (documentRoot?_eq_some_iff.1 hr)
    · exact h.home?
  · intro hh
    cases hl : (after steps).contains d with
    | true => exact .inl (documentRoot?_eq_some_iff.2 (hs.held_of_home hh hl).2)
    | false => exact .inr (stranded_of_dead steps hh hl)

/-- Nodes that are compared are in the same tree, and compared by their ways. -/
lemma exists_ways_of_compareInDocument {steps : List SessionStep} {a b : NodeHandle} {o : Ordering}
    (h : (after steps).compareInDocument a b = some o) :
    ∃ d root p q, TreeOf steps d root ∧ (after steps).Way root p a ∧ (after steps).Way root q b ∧
      Place.compareWays p q = o := by
  have hs := sound_after steps
  unfold compareInDocument at h
  obtain ⟨⟨d, p⟩, hp, h⟩ := Option.bind_eq_some_iff.1 h
  obtain ⟨⟨d', q⟩, hq, h⟩ := Option.bind_eq_some_iff.1 h
  split at h
  · next hd =>
    cases h
    obtain rfl : d = d' := beq_iff_eq.1 hd
    obtain ⟨root, hroot, ha⟩ := hs.place?_eq_some_iff.1 hp
    obtain ⟨root', hroot', hb⟩ := hs.place?_eq_some_iff.1 hq
    obtain rfl := root_unique steps hroot hroot'
    exact ⟨d, root, p, q, treeOf_iff.2 hroot, ha, hb, rfl⟩
  · cases h

section Compare

variable {steps : List SessionStep} {root a b e : NodeHandle}

lemma TreeOf.compareInDocument (ht : TreeOf steps d root) (ha : (after steps).Reaches root a)
    (hb : (after steps).Reaches root b) : ∃ p q, (after steps).Way root p a ∧
      (after steps).Way root q b ∧
      (after steps).compareInDocument a b = some (Place.compareWays p q) := by
  obtain ⟨p, hp⟩ := ha
  obtain ⟨q, hq⟩ := hb
  exact ⟨p, q, hp, hq, (sound_after steps).compareInDocument_eq (treeOf_iff.1 ht) hp hq⟩

lemma isSome_compareInDocument_iff : ((after steps).compareInDocument a b).isSome = true ↔
    ∃ d root, TreeOf steps d root ∧ (after steps).Reaches root a ∧ (after steps).Reaches root b := by
  rw [Option.isSome_iff_exists]
  constructor
  · rintro ⟨o, ho⟩
    obtain ⟨d, root, p, q, ht, hp, hq, -⟩ := exists_ways_of_compareInDocument ho
    exact ⟨d, root, ht, ⟨p, hp⟩, ⟨q, hq⟩⟩
  · rintro ⟨d, root, ht, ha, hb⟩
    obtain ⟨p, q, -, -, h⟩ := ht.compareInDocument ha hb
    exact ⟨_, h⟩

lemma eq_of_compareInDocument (h : (after steps).compareInDocument a b = some .eq) : a = b := by
  obtain ⟨d, root, p, q, -, hp, hq, heq⟩ := exists_ways_of_compareInDocument h
  obtain rfl := Std.LawfulEqCmp.eq_of_compare heq
  exact hp.target_unique hq

lemma compareInDocument_swap (steps : List SessionStep) (a b : NodeHandle) :
    (after steps).compareInDocument b a = ((after steps).compareInDocument a b).map .swap := by
  cases h : (after steps).compareInDocument a b with
  | none =>
    rw [Option.map_none, ← Option.not_isSome_iff_eq_none, isSome_compareInDocument_iff]
    rintro ⟨d, root, ht, hb, ha⟩
    have hsome := isSome_compareInDocument_iff.2 ⟨d, root, ht, ha, hb⟩
    rw [h] at hsome
    cases hsome
  | some o =>
    obtain ⟨d, root, p, q, ht, hp, hq, rfl⟩ := exists_ways_of_compareInDocument h
    rw [(sound_after steps).compareInDocument_eq (treeOf_iff.1 ht) hq hp, Option.map_some]
    exact congrArg some Std.OrientedCmp.eq_swap

/-- In the tree of a document, to come before another node by the ways is to be compared so. -/
lemma TreeOf.compareInDocument_eq_lt_iff (ht : TreeOf steps d root) (ha : (after steps).Reaches root a)
    (hb : (after steps).Reaches root b) :
    (after steps).compareInDocument a b = some .lt ↔ (after steps).Precedes a b := by
  obtain ⟨p, q, hp, hq, h⟩ := ht.compareInDocument ha hb
  rw [h]
  constructor
  · intro hlt
    exact ⟨root, p, q, hp, hq, Option.some.inj hlt⟩
  · rintro ⟨top, p', q', hp', hq', hlt⟩
    rw [(sound_after steps).compareWays_eq hp hq hp' hq', hlt]

lemma compareInDocument_trans (hab : (after steps).compareInDocument a b = some .lt)
    (hbe : (after steps).compareInDocument b e = some .lt) :
    (after steps).compareInDocument a e = some .lt := by
  have hs := sound_after steps
  obtain ⟨d, root, p, q, ht, hp, hq, hpq⟩ := exists_ways_of_compareInDocument hab
  obtain ⟨d', root', q', r, ht', hq', hr, hqr⟩ := exists_ways_of_compareInDocument hbe
  -- the node in the middle tells that both trees are the same
  have hplace := (hs.place?_eq_some_iff.2 ⟨root, treeOf_iff.1 ht, hq⟩).symm.trans
    (hs.place?_eq_some_iff.2 ⟨root', treeOf_iff.1 ht', hq'⟩)
  cases hplace
  obtain rfl := root_unique steps (treeOf_iff.1 ht) (treeOf_iff.1 ht')
  rw [hs.compareInDocument_eq (treeOf_iff.1 ht) hp hr]
  exact congrArg some (Std.TransCmp.lt_trans hpq hqr)

/-- In the tree of a document, owners come before what they own. -/
lemma TreeOf.compareInDocument_of_isAncestor (ht : TreeOf steps d root)
    (ha : (after steps).Reaches root a) (h : (after steps).isAncestor a b = true) :
    (after steps).compareInDocument a b = some .lt := by
  have hs := sound_after steps
  obtain ⟨w, hw, hway⟩ := (sorted_after steps).exists_way_of_transGen hs (treeOf_iff.1 ht) ha
    ((isAncestor_iff hs.acyclic).1 h)
  obtain ⟨p, hp⟩ := ha
  rw [hs.compareInDocument_eq (treeOf_iff.1 ht) hp (hp.append hway),
    Place.compareWays_append_right p hw]

/-- The walk through the tree of a document is in the order of the document. -/
lemma TreeOf.pairwise_contentBelow (ht : TreeOf steps d root) :
    ((after steps).contentBelow root).Pairwise
      fun a b => (after steps).compareInDocument a b = some .lt := by
  have hs := sound_after steps
  have ho := sorted_after steps
  have hroot := treeOf_iff.1 ht
  have hin : (after steps).Reaches root root := ⟨[], .here root⟩
  refine (ho.pairwise_contentBelow hs hroot hin).imp_of_mem fun ha hb hab => ?_
  rw [ho.mem_contentBelow_iff hs hroot hin] at ha hb
  exact (ht.compareInDocument_eq_lt_iff ha hb).2 hab

/-- Sorting the nodes of the tree of a document gives the walk through it. -/
lemma TreeOf.eq_contentBelow_of_sorted (ht : TreeOf steps d root) {l : List NodeHandle}
    (hperm : l.Perm ((after steps).contentBelow root))
    (hl : l.Pairwise fun a b => (after steps).compareInDocument a b ≠ some .gt) :
    l = (after steps).contentBelow root := by
  have hmem := (sorted_after steps).mem_contentBelow_iff (sound_after steps) (treeOf_iff.1 ht)
    ⟨[], .here root⟩
  refine List.Perm.eq_of_pairwise (fun a b ha hb hab hba => ?_) hl
    (ht.pairwise_contentBelow.imp fun h => by rw [h]; simp) hperm
  obtain ⟨p, q, -, -, h⟩ := ht.compareInDocument ((hmem a).1 (hperm.mem_iff.1 ha)) ((hmem b).1 hb)
  rw [compareInDocument_swap, h] at hba
  rw [h] at hab
  cases ho : Place.compareWays p q with
  | eq => exact eq_of_compareInDocument (h.trans (congrArg some ho))
  | lt => exact absurd (by rw [ho]; rfl) hba
  | gt => exact absurd (by rw [ho]) hab

end Compare

/-- What the order of documents says after any session.  The way up from a node comes to an end.  Two nodes are
compared exactly if both are in the tree of the same document.  That is a total order, in which only a node and
itself are equal and everything comes after its owners.  The nodes of a tree are those that the walk through it
meets: a node, and then what is below the nodes in its fields, the fields by number and what is in a field by
position; and whoever sorts them gets the walk. -/
theorem documentOrder_exact (steps : List SessionStep) :
    (∀ h, (after steps).Climb h [] ((after steps).place? h)) ∧
    (∀ a b, ((after steps).compareInDocument a b).isSome = true ↔
      ∃ d root, TreeOf steps d root ∧ (after steps).Reaches root a ∧
        (after steps).Reaches root b) ∧
    (∀ a b, (after steps).compareInDocument a b = some .eq → a = b) ∧
    (∀ a b, (after steps).compareInDocument b a =
      ((after steps).compareInDocument a b).map Ordering.swap) ∧
    (∀ a b c, (after steps).compareInDocument a b = some .lt →
      (after steps).compareInDocument b c = some .lt →
        (after steps).compareInDocument a c = some .lt) ∧
    (∀ a b d root, TreeOf steps d root → (after steps).Reaches root a →
      (after steps).isAncestor a b = true → (after steps).compareInDocument a b = some .lt) ∧
    (∀ d root, TreeOf steps d root →
      (∀ h, h ∈ (after steps).contentBelow root ↔ (after steps).Reaches root h) ∧
      (∀ h, (after steps).Reaches root h → ∃ fields,
        (∀ i, fields ≤ i → (after steps).fieldContent h i = []) ∧
        (after steps).contentBelow h = h :: (List.range fields).flatMap fun i =>
          ((after steps).fieldContent h i).flatMap (after steps).contentBelow) ∧
      ((after steps).contentBelow root).Pairwise
        (fun a b => (after steps).compareInDocument a b = some .lt) ∧
      ∀ l : List NodeHandle, l.Perm ((after steps).contentBelow root) →
        l.Pairwise (fun a b => (after steps).compareInDocument a b ≠ some .gt) →
          l = (after steps).contentBelow root) := by
  have hs := sound_after steps
  have ho := sorted_after steps
  refine ⟨hs.climb_place?, fun _ _ => isSome_compareInDocument_iff,
    fun _ _ => eq_of_compareInDocument, compareInDocument_swap steps,
    fun _ _ _ => compareInDocument_trans, fun _ _ _ _ ht => ht.compareInDocument_of_isAncestor,
    fun d root ht => ⟨?_, ?_, ht.pairwise_contentBelow, fun _ => ht.eq_contentBelow_of_sorted⟩⟩
  · exact ho.mem_contentBelow_iff hs (treeOf_iff.1 ht) ⟨[], .here root⟩
  · exact fun h => ho.contentBelow_eq_cons hs (treeOf_iff.1 ht)

/-- A session in which a document is dropped and its root is kept. -/
def droppedDocumentSession : List SessionStep :=
  [.operate (.createOntology "o"), .operate (.createClass ⟨1, 1⟩ "c" .any none false true),
    .operate (.createDocument "d"), .operate (.createRoot ⟨4, 1⟩ ⟨2, 1⟩ none ""),
    .operate (.addRoot ⟨1, 1⟩), .operate (.addRoot ⟨5, 1⟩), .collect]

/-- The node is compared although no document has a root. -/
theorem compareInDocument_droppedDocumentSession :
    (∀ d, (after droppedDocumentSession).documentRoot? d = none) ∧
      (after droppedDocumentSession).compareInDocument ⟨5, 1⟩ ⟨5, 1⟩ = some .eq := by
  refine ⟨fun d => ?_, by decide +kernel⟩
  have hall : ∀ h ∈ (after droppedDocumentSession).handles,
      (after droppedDocumentSession).documentRoot? h = none := by decide +kernel
  by_cases hd : d ∈ (after droppedDocumentSession).handles
  · exact hall d hd
  · rw [mem_handles_iff, contains, Bool.not_eq_true, Option.isSome_eq_false_iff,
      Option.isNone_iff_eq_none] at hd
    rw [documentRoot?, hd]

end Store

end Semdoc
