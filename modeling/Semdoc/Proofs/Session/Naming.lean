import Semdoc.Proofs.Session.Marks
import Semdoc.Proofs.Store.Mirror

/-!
# Names in a session

As long as no nodes are dropped, every slot finds its nodes under the names that they carry at the
moment, however often they have been renamed, moved or put into other slots.  The slots for owned nodes
do so even when nodes are dropped, since what they hold is dropped with their owner only.
-/

namespace Semdoc.Store

lemma Mirrored.empty (P : Slot → Prop) : Mirrored {} P := by
  constructor
  · intro o slot _
    rw [rosterAt, get?_empty]
    exact .empty _
  · intro c o slot _
    rw [Store.listeners, rosterAt, get?_empty, get?_empty]
    rfl

lemma mirrored_after {steps : List SessionStep} (hsteps : SessionStep.collect ∉ steps) :
    (after steps).Mirrored fun _ => True := by
  have hboth : (after steps).Sound ∧ (after steps).Closed ∧
      (after steps).Mirrored fun _ => True := by
    refine after_induction (P := fun s => s.Closed ∧ s.Mirrored fun _ => True)
      ⟨.empty, .empty _⟩ ?_ ?_ hsteps
    · intro s s' hs hp h
      exact ⟨hp.1.change hs h, hp.2.change hs (fun _ => hp.1.of_held) h⟩
    · intro s s' hp h
      exact ⟨hp.1.of_quiet (.of_sameNodes h), hp.2.of_sameNodes h⟩
  exact hboth.2.2

/-- As long as no nodes are dropped, the nodes in the index of a slot under a name are those of the
slot that carry it, as often as they are in the slot.  So looking a name up finds a node if there is
one, and one that carries the name.  A node has a listener for each of its occurrences in a slot. -/
theorem name_index_mirrors_slot (steps : List SessionStep)
    (hsteps : SessionStep.collect ∉ steps) (o : NodeHandle) (slot : Slot) :
    (∀ r x, (after steps).roster? o slot = some r → x ≠ "" →
      (r.index.nodesNamed x).Perm (r.items.filter fun c => (after steps).name c == x)) ∧
    (∀ x, x ≠ "" → (((after steps).childNamed? o slot x).isSome = true ↔
      ∃ c ∈ (after steps).listed o slot, (after steps).name c = x)) ∧
    (∀ x c, (after steps).childNamed? o slot x = some c →
      c ∈ (after steps).listed o slot ∧ (after steps).name c = x) ∧
    ∀ c n, (after steps).get? c = some n →
      n.listeners.count (.roster o slot) = ((after steps).listed o slot).count c := by
  have hm := mirrored_after hsteps
  generalize after steps = s at hm
  have hlisted : s.listed o slot = (s.rosterAt o slot).items := by
    unfold listed rosterAt
    cases s.get? o with
    | none => rfl
    | some n => exact n.listed_eq slot
  have hroster : ∀ r, s.roster? o slot = some r → s.rosterAt o slot = r := by
    intro r hr
    obtain ⟨n, hn, hr⟩ := Option.bind_eq_some_iff.1 hr
    rw [rosterAt_of_get? hn, Node.rosterAt_of_roster? hr]
  have hchild : ∀ x c, s.childNamed? o slot x = some c → c ∈ s.listed o slot ∧ s.name c = x := by
    intro x c hc
    obtain ⟨r, hr, hc⟩ := Option.bind_eq_some_iff.1 hc
    rw [hlisted, hroster r hr]
    exact (hroster r hr ▸ hm.mirrors o slot trivial).of_resolve? hc
  refine ⟨fun r x hr hx => ?_, fun x hx => ⟨fun h => ?_, ?_⟩, hchild, fun c n hn => ?_⟩
  · exact (hroster r hr ▸ hm.mirrors o slot trivial).nodesNamed_perm hx
  · obtain ⟨c, hc⟩ := Option.isSome_iff_exists.1 h
    exact ⟨c, hchild x c hc⟩
  · rintro ⟨c, hc, rfl⟩
    cases hr : s.roster? o slot with
    | none =>
      have hnil : s.listed o slot = [] := by
        unfold roster? at hr
        unfold listed
        cases hn : s.get? o with
        | none => rfl
        | some n =>
          rw [hn, Option.bind_some] at hr
          rw [Option.map_some, Option.getD_some, Node.listed, hr]
          rfl
      rw [hnil] at hc
      cases hc
    | some r =>
      rw [hlisted, hroster r hr] at hc
      rw [childNamed?, hr, Option.bind_some]
      exact (hroster r hr ▸ hm.mirrors o slot trivial).resolve?_isSome hc hx
  · have hl := hm.listeners c o slot trivial
    rw [listeners, hn, Option.map_some, Option.getD_some] at hl
    rw [hl, hlisted]

/-- A session in which an ontology becomes visible in a document twice and is renamed after that. -/
def renamingSession : List SessionStep :=
  [.operate (.createOntology "o"), .operate (.createDocument "d"),
    .operate (.addDocumentOntology ⟨2, 1⟩ ⟨1, 1⟩), .operate (.addDocumentOntology ⟨2, 1⟩ ⟨1, 1⟩),
    .operate (.setName ⟨1, 1⟩ "p")]

/-- The document finds the ontology under its new name, which both occurrences tell. -/
theorem name_index_mirrors_slot_renamingSession :
    SessionStep.collect ∉ renamingSession ∧
      (after renamingSession).childNamed? ⟨2, 1⟩ .documentOntologies "p" = some ⟨1, 1⟩ ∧
      (after renamingSession).name ⟨1, 1⟩ = "p" ∧
      ((after renamingSession).listed ⟨2, 1⟩ .documentOntologies).count ⟨1, 1⟩ = 2 := by
  have hsteps : SessionStep.collect ∉ renamingSession := by simp [renamingSession]
  have hmirror := name_index_mirrors_slot renamingSession hsteps ⟨2, 1⟩ .documentOntologies
  have hchild : (after renamingSession).childNamed? ⟨2, 1⟩ .documentOntologies "p" =
      some ⟨1, 1⟩ := by decide
  exact ⟨hsteps, hchild, (hmirror.2.2.1 _ _ hchild).2, by decide⟩

/-! ## Owned nodes -/

/-- Collecting keeps slots mirrored that are for owned nodes. -/
lemma Mirrored.collect {s : Store} {P : Slot → Prop} (hm : s.Mirrored P) (hs : s.Sound)
    (hP : ∀ slot, P slot → slot.isComposition = true) : s.collect.2.Mirrored P := by
  have howned : ∀ {o c : NodeHandle} {slot : Slot}, P slot → o ∈ s.survivors →
      c ∈ (s.rosterAt o slot).items → c ∈ s.survivors := by
    intro o c slot hp ho hc
    have hheld := (hs.shaped.mem_held_of_mem_items hc).2
    exact mem_survivors_of_owns hs.shaped ho ⟨slot, hP slot hp, hheld⟩
  constructor
  · intro o slot hp
    rw [rosterAt_collect]
    split
    · next ho =>
      refine (hm.mirrors o slot hp).congr fun c hc => ?_
      rw [name_collect, if_pos (howned hp ho hc)]
    · exact .empty _
  · intro c o slot hp
    have hl := hm.listeners c o slot hp
    rw [rosterAt_collect, count_listeners_collect]
    · split
      · next h => rw [if_pos h.2, hl]
      · next h =>
        split
        · next ho => rw [List.count_eq_zero_of_not_mem fun hc => h ⟨howned hp ho hc, ho⟩]
        · rfl
    · intro ho
      rw [contains, Option.isSome_eq_false_iff, Option.isNone_iff_eq_none] at ho
      rw [hl, rosterAt, ho]
      rfl

/-- The slots for owned nodes are mirrored throughout a session. -/
theorem mirrored_isComposition_after (steps : List SessionStep) :
    (after steps).Mirrored fun slot => slot.isComposition = true := by
  induction steps using List.reverseRecOn with
  | nil => exact .empty _
  | append_singleton steps step ih =>
    have hs := sound_after steps
    rw [after_append]
    cases step with
    | operate op =>
      have hchange : ∀ s s', s.Sound → (s.Mirrored fun slot => slot.isComposition = true) →
          Change s s' → s'.Mirrored fun slot => slot.isComposition = true :=
        fun s s' hs hm h => hm.change hs (fun hslot hc => hs.contains_of_owns ⟨_, hslot, hc⟩) h
      exact ((op.changes hs).keep hchange hs ih).2
    | validate h => exact ih.of_sameNodes (sameNodes_validate _ h)
    | collect => exact ih.collect hs fun _ => id

end Semdoc.Store
