import Semdoc.Proofs.Session.Listeners

/-!
# Collecting in a session

At every time in a session, collecting drops the nodes that no live root owns, directly or not, and
leaves everything else as it was but for listeners.  In one respect what is left is not as it would be had
the dropped nodes never been there: a root goes on to name its owner after that has been dropped.
-/

namespace Semdoc.Store

open Relation

/-- Whether a listener is left when a node is kept. -/
def outlives (s : Store) : Listener → Bool
  | .roster owner _ => s.collect.2.contains owner
  | .watcher _ => true

/-- Collecting drops the nodes that are not rooted, each of them counted once.  A node that is kept loses
nothing but the rosters of dropped owners from its listeners.  The watchers that dropped nodes tell are
registered no more, those that were registered for them among these, and those that kept nodes tell stay.
Collecting again drops nothing and changes nothing. -/
theorem collect_exact (steps : List SessionStep) :
    (∀ h, (after steps).collect.2.contains h = true ↔ (after steps).Rooted h) ∧
    (∃ gone : List NodeHandle, gone.Nodup ∧ gone.length = (after steps).collect.1 ∧
      ∀ h, h ∈ gone ↔ (after steps).contains h = true ∧ ¬ (after steps).Rooted h) ∧
    (∀ h, (after steps).Rooted h → ∃ n, (after steps).get? h = some n ∧
      (after steps).collect.2.get? h =
        some { n with listeners := n.listeners.filter (after steps).outlives }) ∧
    (∀ w, w ∈ (after steps).collect.2.watchers ↔ w ∈ (after steps).watchers ∧
      ∀ h, .watcher w.number ∈ (after steps).listeners h → (after steps).Rooted h) ∧
    (∀ before since h, steps = before ++ .operate (.addWatcher h) :: since →
      (after before).contains h = true → ¬ (after steps).Rooted h →
        ∀ w ∈ (after steps).collect.2.watchers, w.number ≠ ((after before).addWatcher h).1) ∧
    (∀ h k, (after steps).Rooted h → .watcher k ∈ (after steps).listeners h →
      ∃ w ∈ (after steps).collect.2.watchers, w.number = k ∧ w.node = h) ∧
    (after steps).collect.2.collect = (0, (after steps).collect.2) := by
  have hs := sound_after steps
  have ha := attentive_after steps
  have hheeds : ∀ {before since h}, steps = before ++ .operate (.addWatcher h) :: since →
      (after before).contains h = true → (after steps).Heeds h (after before).nextWatcher :=
    fun e hh => e ▸ heeds_after _ _ hh
  generalize after steps = s at hs ha hheeds
  have hdropped : ∀ h, h ∈ s.dropped ↔ s.contains h = true ∧ ¬ s.Rooted h := by
    intro h
    rw [mem_dropped_iff, mem_survivors_iff hs]
  refine ⟨fun h => contains_collect_iff hs, ⟨s.dropped, s.nodup_handles.filter _, rfl, hdropped⟩,
    fun h hh => ?_, fun w => ?_, fun before since h e hh hn w hw => ?_, fun h k hh hk => ?_,
    collect_collect hs⟩
  · obtain ⟨n, hn⟩ := contains_iff.1 (hh.contains hs.toForest)
    refine ⟨n, hn, ?_⟩
    rw [get?_collect hs ha.roster, if_pos ((mem_survivors_iff hs).2 hh), hn, Option.map_some]
    have hfilter : n.listeners.filter s.outlives =
        (n.keepRosterListeners s.collect.2.handles).listeners := by
      refine List.filter_congr fun l _ => ?_
      cases l with
      | watcher _ => rfl
      | roster o _ =>
        rw [outlives, Bool.eq_iff_iff, List.contains_iff_mem, mem_handles_iff]
    rw [hfilter]
    rfl
  · rw [mem_watchers_collect]
    refine and_congr_right fun _ => ⟨fun h d hd => ?_, fun h d hd hl => ?_⟩
    · by_contra hn
      exact h d ((hdropped d).2 ⟨contains_of_mem_listeners hd, hn⟩) hd
    · exact ((hdropped d).1 hd).2 (h d hl)
  · intro hk
    obtain ⟨-, htold⟩ := (hheeds e hh).collect ha hs
    have hl := contains_of_mem_listeners (htold w hw hk)
    exact hn ((contains_collect_iff hs).1 hl)
  · obtain ⟨w, hw, hk⟩ := ha.watcher hk
    refine ⟨w, ha.mem_watchers_collect hw ?_, hk⟩
    rw [hk.2]
    exact (mem_survivors_iff hs).2 hh

/-! ## Owners that were dropped -/

/-- A handle that was given out and reaches nothing reaches nothing ever after. -/
structure Spent (s : Store) (h : NodeHandle) : Prop where
  issued : s.Issued h
  dead : s.contains h = false

lemma Spent.change {s s' : Store} {h : NodeHandle} (hh : s.Spent h) (hs : s.Sound)
    (hc : Change s s') : s'.Spent h := by
  rcases hc.cases_quiet with hc | ⟨name, content, rfl⟩ | ⟨o, slot, c, -, rfl⟩ |
    ⟨o, slot, c, -, -, -, rfl⟩
  · exact ⟨(hc.issued h).2 hh.issued, (hc.contains h).trans hh.dead⟩
  · refine ⟨hh.issued.create hs.intact name content, ?_⟩
    rw [contains, hs.intact.get?_create, if_neg (hs.intact.ne_nextHandle hh.issued)]
    exact hh.dead
  · have hi := SameNodes.invalidate (s.unlink o slot c) o
    refine ⟨(hi.issued h).2 (((samePlaces_unlink s o slot c).issued h).2 hh.issued), ?_⟩
    rw [hi.contains, contains_unlink]
    exact hh.dead
  · have hi := SameNodes.invalidate (s.link o slot c) o
    refine ⟨(hi.issued h).2 (((samePlaces_link s o slot c).issued h).2 hh.issued), ?_⟩
    rw [hi.contains, contains_link]
    exact hh.dead

lemma Spent.changes {s s' : Store} {h : NodeHandle} (hh : s.Spent h) (hs : s.Sound)
    (hc : Changes s s') : s'.Spent h :=
  (hc.keep (P := fun t => t.Spent h) (fun _ _ hs hh hc => hh.change hs hc) hs hh).2

lemma Spent.step {s : Store} {h : NodeHandle} (hh : s.Spent h) (hs : s.Sound) (step : SessionStep) :
    (step.run s).Spent h := by
  cases step with
  | operate op => exact hh.changes hs (op.changes hs)
  | validate d =>
    have hm := sameNodes_validate s d
    exact ⟨(hm.issued h).2 hh.issued, (hm.contains h).trans hh.dead⟩
  | collect =>
    refine ⟨hh.issued.collect, ?_⟩
    show s.collect.2.contains h = false
    rw [contains_collect, hh.dead, Bool.and_false]

/-- The owner of a node has been dropped by collecting when the node was a root itself, and the node has
named it as its owner ever since. -/
def Stranded (steps : List SessionStep) (n : NodeHandle) (home : Home) : Prop :=
  ∃ before since, steps = before ++ .collect :: since ∧
    (after before).home? n = some home ∧ (after before).isRoot n = true ∧
    (after before).contains home.owner = true ∧ ¬ (after before).Rooted home.owner ∧
    ∀ part, part <+: since → (after (before ++ .collect :: part)).home? n = some home

namespace Stranded

variable {steps : List SessionStep} {n : NodeHandle} {home : Home}

lemma home? (h : Stranded steps n home) : (after steps).home? n = some home := by
  obtain ⟨before, since, rfl, -, -, -, -, hall⟩ := h
  exact hall since (List.prefix_refl since)

lemma spent (h : Stranded steps n home) : (after steps).Spent home.owner := by
  obtain ⟨before, since, rfl, -, -, hl, hn, -⟩ := h
  have hs := sound_after before
  induction since using List.reverseRecOn with
  | nil =>
    rw [after_append]
    refine ⟨(Issued.of_contains hl).collect, ?_⟩
    by_contra hc
    exact hn ((contains_collect_iff hs).1 (Bool.not_eq_false _ ▸ hc))
  | append_singleton since step ih =>
    rw [← List.cons_append, ← List.append_assoc, after_append]
    exact ih.step (sound_after _) step

/-- One more step in which the node keeps its home. -/
lemma append (h : Stranded steps n home) {step : SessionStep}
    (hn : (after (steps ++ [step])).home? n = some home) : Stranded (steps ++ [step]) n home := by
  obtain ⟨before, since, rfl, hhome, hr, hl, hd, hall⟩ := h
  refine ⟨before, since ++ [step], by simp, hhome, hr, hl, hd, fun part hpart => ?_⟩
  rcases List.prefix_concat_iff.1 hpart with rfl | hpart
  · simpa using hn
  · exact hall part hpart

end Stranded

/-- Nobody gets an owner that is not there. -/
lemma Change.home?_of_dead {s s' : Store} (hs : s.Sound) (hc : Change s s') {n : NodeHandle}
    {home : Home} (hh : s'.home? n = some home) (hdead : s'.contains home.owner = false) :
    s.home? n = some home := by
  rcases hc.cases_quiet with hc | ⟨name, content, rfl⟩ | ⟨o, slot, c, -, rfl⟩ |
    ⟨o, slot, c, ha, hl, -, rfl⟩
  · rwa [hc.home?] at hh
  · rw [Store.home?, hs.intact.get?_create] at hh
    split at hh
    · cases hh
    · exact hh
  · rw [(SameNodes.invalidate _ o).home?, home?_unlink] at hh
    split at hh
    · cases hh
    · exact hh
  · rw [(SameNodes.invalidate _ o).home?, home?_link c n hl] at hh
    rw [(SameNodes.invalidate _ o).contains, contains_link] at hdead
    split at hh
    · cases hh
      obtain ⟨m, hm, -⟩ := ha
      exact absurd (contains_iff.2 ⟨m, hm⟩) (Bool.eq_false_iff.1 hdead)
    · split at hh
      · cases hh
      · exact hh

lemma Changes.home?_of_dead {s s' : Store} (hs : s.Sound) (hc : Changes s s') {n : NodeHandle}
    {home : Home} (hh : s'.home? n = some home) (hdead : s'.contains home.owner = false) :
    s.home? n = some home ∧ s.contains home.owner = false := by
  induction hc with
  | refl => exact ⟨hh, hdead⟩
  | tail hc h ih =>
    have hs' := hs.changes hc
    have hbefore := h.contains hs' (k := home.owner)
    refine ih (h.home?_of_dead hs' hh hdead) (Bool.eq_false_iff.2 fun hl => ?_)
    rw [hbefore hl] at hdead
    cases hdead

lemma stranded_of_dead (steps : List SessionStep) {n : NodeHandle} {home : Home}
    (hh : (after steps).home? n = some home)
    (hdead : (after steps).contains home.owner = false) : Stranded steps n home := by
  induction steps using List.reverseRecOn with
  | nil =>
    rw [show after [] = {} from rfl, Store.home?, get?_empty] at hh
    cases hh
  | append_singleton steps step ih =>
    have hs := sound_after steps
    have hnow := hh
    rw [after_append] at hh hdead
    cases step with
    | operate op =>
      obtain ⟨hh, hdead⟩ := (op.changes hs).home?_of_dead hs hh hdead
      exact (ih hh hdead).append hnow
    | validate h =>
      have hm := sameNodes_validate (after steps) h
      refine (ih ?_ ?_).append hnow
      · exact (hm.home? n).symm.trans hh
      · exact (hm.contains home.owner).symm.trans hdead
    | collect =>
      change (after steps).collect.2.home? n = some home at hh
      change (after steps).collect.2.contains home.owner = false at hdead
      rw [home?_collect] at hh
      split at hh
      · next hkept =>
        cases hl : (after steps).contains home.owner with
        | false => exact (ih hh hl).append hnow
        | true =>
          -- the owner is dropped by this step, so that the node is kept as a root
          have hn : ¬ (after steps).Rooted home.owner := fun h =>
            Bool.eq_false_iff.1 hdead ((contains_collect_iff hs).2 h)
          have hr := ((mem_survivors_iff hs).1 hkept).root_or_owner hs.toForest hh
          refine ⟨steps, [], rfl, hh, hr.resolve_right hn, hl, hn, fun part hpart => ?_⟩
          rw [List.prefix_nil.1 hpart]
          exact hnow
      · cases hh

/-- The owner that a node names is there, and has the node in the slot that the node names, unless the
node was kept as a root when its owner was dropped.  In that case it names an owner that is not there, until
it is put into a slot of another one. -/
theorem home_iff_held_or_stranded (steps : List SessionStep) (n : NodeHandle) (home : Home) :
    ((after steps).home? n = some home ↔
      (home.slot.isComposition = true ∧ (after steps).holds home.owner home.slot n = true) ∨
        Stranded steps n home) ∧
    (Stranded steps n home → (after steps).contains home.owner = false) := by
  have hs := sound_after steps
  refine ⟨⟨fun hh => ?_, ?_⟩, fun h => h.spent.dead⟩
  · cases hl : (after steps).contains home.owner with
    | false => exact .inr (stranded_of_dead steps hh hl)
    | true =>
      obtain ⟨hslot, hm⟩ := hs.held_of_home hh hl
      exact .inl ⟨hslot, holds_iff.2 hm⟩
  · rintro (⟨hslot, hm⟩ | h)
    · exact hs.home_of_held hslot (holds_iff.1 hm)
    · exact h.home?

/-- A session in which the project of an ontology is dropped and the ontology is kept. -/
def strandedSession : List SessionStep :=
  [.operate .createProject, .operate (.createProjectOntology ⟨6, 1⟩ "o"),
    .operate (.removeRoot ⟨6, 1⟩), .operate (.addRoot ⟨7, 1⟩), .collect]

/-- The ontology names the project as its owner, which is not there, and is found valid. -/
theorem home_strandedSession :
    (after strandedSession).contains ⟨7, 1⟩ = true ∧
      (after strandedSession).home? ⟨7, 1⟩ = some ⟨⟨6, 1⟩, .projectOntologies⟩ ∧
      (after strandedSession).contains ⟨6, 1⟩ = false ∧
      ((after strandedSession).validate ⟨7, 1⟩).value.1 = true := by
  decide +kernel

end Semdoc.Store
