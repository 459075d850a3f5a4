import Semdoc.Proofs.Store.Retain

/-!
# Marks below marks

A change that takes the mark of a node away takes the marks of its owners away as well.  So as long as a node stays
marked, the marks of the nodes that it owns stay.
-/

namespace Semdoc.Store

open Relation

/-- What a node owns that stays marked stays marked with it. -/
def Sustains (s s' : Store) : Prop :=
  ∀ p c, s'.isValidated p = true → s.Owns p c → s.isValidated c = true → s'.isValidated c = true

/-- A node stays marked only while nothing below it changes, and then the marks below it stay. -/
structure Upholds (s s' : Store) : Prop where
  retains : Retains s s'
  sustains : Sustains s s'

namespace Upholds

variable {s s' s'' u : Store}

lemma refl (s : Store) : Upholds s s := ⟨.refl s, fun _ _ _ _ => id⟩

lemma trans (h : Upholds s s') (h' : Upholds s' s'') : Upholds s s'' := by
  refine ⟨h.retains.trans h'.retains, fun p c hp hown hc => ?_⟩
  have hp' := (h'.retains p hp).1
  have hu := (h.retains p hp').2 p .refl
  exact h'.sustains p c hp (hu.owns_iff.2 hown) (h.sustains p c hp' hown hc)

lemma of_marks (hr : Retains s s') (hm : ∀ k, s'.isValidated k = s.isValidated k) :
    Upholds s s' :=
  ⟨hr, fun _ c _ _ hc => (hm c).trans hc⟩

/-- Whatever is done before, invalidating a node takes the mark of an owner away with that of what it owns. -/
lemma of_invalidate (hu : u.Sound) {o : NodeHandle} (hm : ∀ k, u.isValidated k = s.isValidated k)
    (hr : Retains s (u.invalidate o)) : Upholds s (u.invalidate o) := by
  refine ⟨hr, fun p c hp hown hc => ?_⟩
  have hown' : (u.invalidate o).Owns p c := ((hr p hp).2 p .refl).owns_iff.2 hown
  have hpc : u.IsParent p c := by
    rw [← (SameNodes.invalidate u o).isParent]
    exact (hu.invalidate o).isParent_of_owns hown'
  rw [isValidated_invalidate, Bool.and_eq_true] at hp
  rw [isValidated_invalidate, hm, hc, Bool.true_and, Bool.not_eq_true', ← Bool.not_eq_true]
  intro hco
  -- the owner would be on the way up as well
  rw [List.contains_iff_mem, mem_chainUp_iff hu.acyclic] at hco
  have hpo := (mem_chainUp_iff hu.acyclic).2 (ReflTransGen.head hpc hco)
  simp [hpo] at hp

lemma invalidate (hs : s.Sound) (h : NodeHandle) : Upholds s (s.invalidate h) :=
  of_invalidate hs (fun _ => rfl) (.invalidate s h)

lemma create (hs : s.Sound) (name : String) (content : Content) :
    Upholds s (s.create name content).2 := by
  refine ⟨.create hs name content, fun p c _ _ hc => ?_⟩
  have hne : c ≠ s.nextHandle := by
    rintro rfl
    rw [isValidated, get?_nextHandle hs.intact] at hc
    cases hc
  rw [isValidated, hs.intact.get?_create, if_neg hne]
  exact hc

/-! ## Names and listeners -/

lemma tell (hs : s.Sound) (old new : String) (h : NodeHandle) (l : Listener) :
    Upholds s (s.tell old new h l).2 := by
  have hr := Retains.tell s old new h l
  cases l with
  | roster owner slot =>
    have hperm : ∀ r : Roster, (r.rename old new h).items.Perm r.items := fun _ => .refl _
    exact of_invalidate (hs.of_quiet (.editRoster s owner slot hperm))
      (fun k => isValidated_modify s owner k (Node.SlotsOnly.editRoster slot _).validated) hr
  | watcher number =>
    simp only [Store.tell]
    split <;> exact refl s

lemma tellAll (hs : s.Sound) (old new : String) (h : NodeHandle) (ls : List Listener) :
    Upholds s (s.tellAll old new h ls) := by
  induction ls generalizing s with
  | nil => exact refl s
  | cons l r ih =>
    exact (tell hs old new h l).trans (ih (hs.of_quiet (.tell s old new h l)))

lemma setName (hs : s.Sound) (h : NodeHandle) (name : String) :
    Upholds s (s.setName h name).2 := by
  rw [snd_setName]
  split
  · have hn : (s.modify h fun n => { n with name }).Sound := hs.of_quiet (.rename s h name)
    have hi := of_invalidate hn (fun k => isValidated_modify s h k fun _ => rfl)
      (.rename hs h name)
    exact hi.trans (.tellAll (hn.invalidate h) _ _ _ _)
  · exact refl s

lemma unlink (hs : s.Sound) {o c : NodeHandle} {slot : Slot} (hc : c ∈ s.held o slot) :
    Upholds s ((s.unlink o slot c).invalidate o) :=
  of_invalidate (hs.unlink hc) (fun k => isValidated_unlink k) (.unlink hs hc)

lemma link (hs : s.Sound) {o c : NodeHandle} {slot : Slot} (ha : s.Accepts o slot)
    (hc : s.contains c = true)
    (hout : slot.isComposition = true →
      (∀ p sl, sl.isComposition = true → c ∉ s.held p sl) ∧ ¬ ReflTransGen s.IsParent c o) :
    Upholds s ((s.link o slot c).invalidate o) :=
  of_invalidate (hs.link ha hc hout) (fun k => isValidated_link c k) (.link hs ha hc hout)

end Upholds

/-- What is kept beside the places has no marks. -/
lemma isValidated_of_cells {s s' : Store} (hc : s'.cells = s.cells) (k : NodeHandle) :
    s'.isValidated k = s.isValidated k := by
  have hget : s'.get? k = s.get? k := get?_congr fun i _ => by rw [hc]
  rw [isValidated, hget, isValidated]

lemma isValidated_addWatcher (s : Store) (h k : NodeHandle) :
    (s.addWatcher h).2.isValidated k = s.isValidated k := by
  unfold addWatcher
  refine (isValidated_modify _ h k ?_).trans (isValidated_of_cells ?_ k)
  · intro n
    rfl
  · rfl

lemma isValidated_removeWatcher (s : Store) (number : Nat) (k : NodeHandle) :
    (s.removeWatcher number).2.isValidated k = s.isValidated k := by
  unfold removeWatcher
  split
  · rfl
  · refine (isValidated_modify _ _ k ?_).trans (isValidated_of_cells ?_ k)
    · intro n
      rfl
    · rfl

/-- Elementary changes take marks away from below upwards. -/
theorem Sound.upholds_change {s s' : Store} (hs : s.Sound) (h : Change s s') : Upholds s s' := by
  have hr := hs.retains_change h
  cases h with
  | create name content he => exact .create hs name content
  | invalidate h => exact .invalidate hs h
  | revise h f hf hc => exact .of_marks hr fun k => isValidated_modify s h k fun _ => rfl
  | sort h slot last hc =>
    exact .of_marks hr fun k => isValidated_modify s h k (Node.SlotsOnly.editRoster slot _).validated
  | remove o slot c =>
    by_cases hc : c ∈ s.held o slot
    · rw [removeFrom_of_mem hc]
      exact .unlink hs hc
    · rw [removeFrom_of_not_mem hc]
      exact .refl s
  | enter o slot c ha hl _ hout => exact .link hs ha hl hout
  | rename h name => exact .setName hs h name
  | locate h l => exact .of_marks hr fun k => isValidated_modify s h k fun _ => rfl
  | watch h => exact .of_marks hr (isValidated_addWatcher s h)
  | unwatch number => exact .of_marks hr (isValidated_removeWatcher s number)
  | root h =>
    refine .of_marks hr fun k => ?_
    unfold addRoot
    split
    · rfl
    · exact isValidated_of_cells rfl k
  | unroot h => exact .of_marks hr fun k => isValidated_of_cells rfl k

theorem Sound.upholds_changes {s s' : Store} (hs : s.Sound) (h : Changes s s') :
    Upholds s s' := by
  induction h with
  | refl => exact .refl s
  | tail h hc ih => exact ih.trans ((hs.changes h).upholds_change hc)

/-- What a node owns that stays is not dropped, and keeps its mark. -/
theorem Sound.upholds_collect {s : Store} (hs : s.Sound) : Upholds s s.collect.2 := by
  refine ⟨hs.retains_collect, fun p c hp hown hc => ?_⟩
  have hmark : ∀ k, s.collect.2.isValidated k =
      if k ∈ s.survivors then s.isValidated k else false := by
    intro k
    rw [isValidated, map_get?_collect _ fun _ _ => rfl, isValidated]
    split <;> rfl
  rw [hmark] at hp ⊢
  split at hp
  · next hlive => rw [if_pos (mem_survivors_of_owns hs.shaped hlive hown), hc]
  · cases hp

end Semdoc.Store
