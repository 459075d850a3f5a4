import Mathlib.Data.List.Induction
import Semdoc.Proofs.Session.Operation
import Semdoc.Proofs.Validation.Pass

/-!
# Ownership in a session

As long as no nodes are dropped, owners and owned nodes agree in both directions, and every node is
owned once at most and does not own itself.
-/

namespace Semdoc

open Relation

namespace Store

/-- Nothing that is in a slot and nothing that owns a node has been dropped. -/
structure Closed (s : Store) : Prop where
  of_held : ∀ {p c : NodeHandle} {slot : Slot}, c ∈ s.held p slot → s.contains c = true
  of_home : ∀ {c : NodeHandle} {home : Home}, s.home? c = some home →
    s.contains home.owner = true

namespace Closed

variable {s s' : Store}

lemma empty : Closed {} := by
  constructor
  · intro p c slot hc
    simp [held, get?_empty] at hc
  · intro c home hc
    simp [home?, get?_empty] at hc

lemma of_quiet (hs : s.Closed) (h : Quiet s s') : s'.Closed := by
  constructor
  · intro p c slot hc
    rw [h.contains]
    exact hs.of_held ((h.held p slot).mem_iff.1 hc)
  · intro c home hc
    rw [h.home?] at hc
    rw [h.contains]
    exact hs.of_home hc

lemma create (hs : s.Closed) (hi : s.Intact) (name : String) (content : Content) :
    (s.create name content).2.Closed := by
  have hget := hi.get?_create name content
  have hc : ∀ k, s.contains k = true → (s.create name content).2.contains k = true := by
    intro k hk
    rw [contains, hget]
    split
    · rfl
    · exact hk
  constructor
  · intro p c slot hm
    rw [held, hget] at hm
    split at hm
    · rw [Option.map_some, Option.getD_some, Node.held_new] at hm
      cases hm
    · exact hc c (hs.of_held hm)
  · intro c home hm
    rw [home?, hget] at hm
    split at hm
    · cases hm
    · exact hc _ (hs.of_home hm)

lemma unlink (hs : s.Closed) (hsh : s.Shaped) {o c : NodeHandle} {slot : Slot}
    (hc : c ∈ s.held o slot) : (s.unlink o slot c).Closed := by
  constructor
  · intro p d sl hd
    rw [contains_unlink]
    rw [held_unlink p hsh hc] at hd
    split at hd
    · exact hs.of_held (List.mem_of_mem_erase hd)
    · exact hs.of_held hd
  · intro d home hd
    rw [contains_unlink]
    rw [home?_unlink] at hd
    split at hd
    · cases hd
    · exact hs.of_home hd

lemma link (hs : s.Closed) (hsh : s.Shaped) {o c : NodeHandle} {slot : Slot}
    (ha : s.Accepts o slot) (hc : s.contains c = true) : (s.link o slot c).Closed := by
  constructor
  · intro p d sl hd
    rw [contains_link]
    rw [held_link hsh ha] at hd
    split at hd
    · rw [List.mem_append, List.mem_singleton] at hd
      rcases hd with hd | rfl
      · split at hd
        · cases hd
        · exact hs.of_held hd
      · exact hc
    · exact hs.of_held hd
  · intro d home hd
    rw [contains_link]
    rw [home?_link c d hc] at hd
    split at hd
    · cases hd
      obtain ⟨n, hn, _⟩ := ha
      exact contains_iff.2 ⟨n, hn⟩
    · split at hd
      · cases hd
      · exact hs.of_home hd

end Closed

lemma Closed.change {s s' : Store} (hc : s.Closed) (hs : s.Sound) (h : Change s s') :
    s'.Closed := by
  rcases h.cases_quiet with h | ⟨name, content, rfl⟩ | ⟨o, slot, c, hm, rfl⟩ |
    ⟨o, slot, c, ha, hl, hout, rfl⟩
  · exact hc.of_quiet h
  · exact hc.create hs.intact name content
  · exact (hc.unlink hs.shaped hm).of_quiet (.invalidate _ o)
  · exact (hc.link hs.shaped ha hl).of_quiet (.invalidate _ o)

/-! ## Sessions without dropping -/

/-- What elementary changes keep is kept by any number of them. -/
lemma Changes.keep {P : Store → Prop}
    (hchange : ∀ s s', s.Sound → P s → Change s s' → P s') {s s' : Store} (h : Changes s s')
    (hs : s.Sound) (hp : P s) : s'.Sound ∧ P s' := by
  induction h with
  | refl => exact ⟨hs, hp⟩
  | tail _ h ih => exact ⟨ih.1.change h, hchange _ _ ih.1 ih.2 h⟩

/-- What every elementary change and every validation keeps holds throughout a session. -/
lemma after_induction {P : Store → Prop} (hempty : P {})
    (hchange : ∀ s s', s.Sound → P s → Change s s' → P s')
    (hmarks : ∀ s s', P s → SameNodes s s' → P s') {steps : List SessionStep}
    (hsteps : SessionStep.collect ∉ steps) : (after steps).Sound ∧ P (after steps) := by
  induction steps using List.reverseRecOn with
  | nil => exact ⟨.empty, hempty⟩
  | append_singleton steps step ih =>
    rw [List.mem_append, not_or] at hsteps
    obtain ⟨hs, hp⟩ := ih hsteps.1
    have e : after (steps ++ [step]) = step.run (after steps) := by
      simp [after, List.foldl_append]
    rw [e]
    cases step with
    | operate op => exact Changes.keep hchange (op.changes hs) hs hp
    | validate h =>
      have hm := sameNodes_validate (after steps) h
      exact ⟨hs.of_quiet (.of_sameNodes hm), hmarks _ _ hp hm⟩
    | collect => exact (hsteps.2 (by simp)).elim

lemma sound_closed_after {steps : List SessionStep} (hsteps : SessionStep.collect ∉ steps) :
    (after steps).Sound ∧ (after steps).Closed :=
  after_induction .empty (fun _ _ hs hc h => hc.change hs h)
    (fun _ _ hc h => hc.of_quiet (.of_sameNodes h)) hsteps

/-- Going up from a node is to ask for its parent again and again. -/
lemma exists_iterate_of_reflTransGen {s : Store} {a h : NodeHandle}
    (ha : ReflTransGen s.IsParent a h) :
    ∃ k, (fun o : Option NodeHandle => o.bind s.parent?)^[k] (some h) = some a := by
  induction ha with
  | refl => exact ⟨0, rfl⟩
  | @tail q k _ hq ih =>
    obtain ⟨i, hi⟩ := ih
    refine ⟨i + 1, ?_⟩
    rw [Function.iterate_succ_apply, Option.bind_some, show s.parent? k = some q from hq, hi]

/-- As long as no nodes are dropped, the owner of a node and the slot in which it is owned are those
of the one slot for owned nodes that holds it, once; and going up from owner to owner comes to an end. -/
theorem ownership_forest (steps : List SessionStep) (hsteps : SessionStep.collect ∉ steps)
    (n : NodeHandle) :
    (∀ p slot, (after steps).home? n = some ⟨p, slot⟩ ↔
      slot.isComposition = true ∧ (after steps).holds p slot n = true) ∧
    (∀ p slot, (after steps).home? n = some ⟨p, slot⟩ →
      ((after steps).held p slot).count n = 1 ∧
        ∀ q sl, sl.isComposition = true → (after steps).holds q sl n = true → q = p ∧ sl = slot) ∧
    ¬ TransGen (after steps).IsParent n n ∧
    ∃ k r, (fun o : Option NodeHandle => o.bind (after steps).parent?)^[k] (some n) = some r ∧
      (after steps).parent? r = none ∧
      ((after steps).contains n = true → (after steps).contains r = true) := by
  obtain ⟨hs, hc⟩ := sound_closed_after hsteps
  generalize after steps = s at hs hc
  have hiff : ∀ p slot, s.home? n = some ⟨p, slot⟩ ↔
      slot.isComposition = true ∧ s.holds p slot n = true := by
    intro p slot
    rw [holds_iff]
    constructor
    · intro hh
      exact hs.held_of_home hh (hc.of_home hh)
    · rintro ⟨hslot, hm⟩
      exact hs.home_of_held hslot hm
  refine ⟨hiff, fun p slot hh => ?_, not_transGen_self hs.acyclic n, ?_⟩
  · obtain ⟨hslot, hm⟩ := (hiff p slot).1 hh
    rw [holds_iff] at hm
    refine ⟨List.count_eq_one_of_mem (hs.nodup p hslot) hm, fun q sl hsl hq => ?_⟩
    exact hs.eq_of_held hsl hslot (holds_iff.1 hq) hm
  · obtain ⟨r, hr, hroot⟩ := exists_root_above hs.acyclic n
    obtain ⟨k, hk⟩ := exists_iterate_of_reflTransGen hr
    refine ⟨k, r, hk, hroot, fun hn => ?_⟩
    -- an owner other than the node itself is live because it owns something
    rcases ReflTransGen.cases_head hr with rfl | ⟨c, hrc, _⟩
    · exact hn
    · obtain ⟨home, hh, rfl⟩ := Option.map_eq_some_iff.1 ((parent?_eq s c).symm.trans hrc)
      exact hc.of_home hh

/-- A session that creates an ontology with a class and validates it. -/
def classSession : List SessionStep :=
  [.operate (.createOntology "o"), .operate (.createClass ⟨1, 1⟩ "c" .any none false false),
    .validate ⟨1, 1⟩]

/-- The class is in the ontology once. -/
theorem ownership_forest_classSession :
    SessionStep.collect ∉ classSession ∧
      (after classSession).holds ⟨1, 1⟩ .ontologyClasses ⟨2, 1⟩ = true ∧
      ((after classSession).held ⟨1, 1⟩ .ontologyClasses).count ⟨2, 1⟩ = 1 := by
  have hsteps : SessionStep.collect ∉ classSession := by simp [classSession]
  have hforest := ownership_forest classSession hsteps ⟨2, 1⟩
  have hhome : (after classSession).home? ⟨2, 1⟩ = some ⟨⟨1, 1⟩, .ontologyClasses⟩ := by decide
  exact ⟨hsteps, ((hforest.1 _ _).1 hhome).2, (hforest.2.1 _ _ hhome).1⟩

end Store

end Semdoc
