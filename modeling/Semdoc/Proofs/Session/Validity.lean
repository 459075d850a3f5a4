import Semdoc.Proofs.Session.Circles
import Semdoc.Proofs.Store.Sustain
import Semdoc.Proofs.Validation.Reports
import Semdoc.Proofs.Validation.Verdicts

/-!
# Validity of what is owned

What a valid node owns is valid as well, with one exception: an ontology that draws on its own project, directly or
not, counts as valid while it is looked at.  If it then turns out not to be valid, the project may have been marked
before, and the mark stays.
-/

namespace Semdoc.Store

open Relation

variable {s : Store} {n k c : NodeHandle} {steps : List SessionStep}

/-! ## One step -/

/-- A validation keeps all that there is but marks, and every other step takes marks away from below upwards. -/
lemma upholds_or_validate (hs : s.Sound) (step : SessionStep) :
    Upholds s (step.run s) ∨ ∃ h, step = .validate h := by
  cases step with
  | operate op => exact .inl (hs.upholds_changes (op.changes hs))
  | validate h => exact .inr ⟨h, rfl⟩
  | collect => exact .inl hs.upholds_collect

/-! ## Ontologies that are taken for valid -/

/-- An ontology of a project was taken for valid when the project was marked, since the ontology was being looked at
and led back to the project.  It was not valid, and has been found valid at no time since, while the project has kept
its mark. -/
def Overrated (n k : NodeHandle) (steps : List SessionStep) : Prop :=
  ∃ before h since, steps = before ++ SessionStep.validate h :: since ∧
    (after before).isValidated n = false ∧ ((after before).validate k).value.1 = false ∧
    k ∈ (after before).listed n .projectOntologies ∧
    (∃ o, ReflTransGen (after before).LeadsTo k o ∧ n ∈ (after before).listed o .ontologyTypesystems) ∧
    ∀ part, part <+: since →
      (after (before ++ .validate h :: part)).isValidated n = true ∧
      (after (before ++ .validate h :: part)).isValidated k = false

namespace Overrated

/-- One more step after which the project is still marked and the ontology is not. -/
lemma append (h : Overrated n k steps) {step : SessionStep}
    (hn : (after (steps ++ [step])).isValidated n = true)
    (hk : (after (steps ++ [step])).isValidated k = false) : Overrated n k (steps ++ [step]) := by
  obtain ⟨before, v, since, rfl, hno, hv, hm, hback, hall⟩ := h
  refine ⟨before, v, since ++ [step], by simp, hno, hv, hm, hback, fun part hpart => ?_⟩
  rcases List.prefix_concat_iff.1 hpart with rfl | hpart
  · rw [← List.cons_append, ← List.append_assoc]
    exact ⟨hn, hk⟩
  · exact hall part hpart

lemma not_marked (h : Overrated n k steps) : (after steps).isValidated k = false := by
  obtain ⟨before, v, since, rfl, -, -, -, -, hall⟩ := h
  exact (hall since (List.prefix_refl since)).2

/-- The project keeps the ontology. -/
lemma mem_held (h : Overrated n k steps) : k ∈ (after steps).held n .projectOntologies := by
  obtain ⟨before, v, since, rfl, -, -, hm, -, hall⟩ := h
  rw [listed_eq_held n rfl] at hm
  have hvalidate : ∀ steps h, (after (steps ++ [.validate h])).held n = (after steps).held n := by
    intro steps h
    rw [after_append]
    funext slot
    exact (sameNodes_validate (after steps) h).held n slot
  induction since using List.reverseRecOn with
  | nil => rwa [hvalidate before v]
  | append_singleton since step ih =>
    have hmarked := (hall _ (List.prefix_refl _)).1
    have hheld := ih fun part hpart => hall part (hpart.trans (List.prefix_append _ _))
    rw [← List.cons_append, ← List.append_assoc] at hmarked ⊢
    rcases upholds_or_validate (sound_after (before ++ .validate v :: since)) step with hu | ⟨h, rfl⟩
    · rw [after_append] at hmarked ⊢
      rwa [((hu.retains n hmarked).2 n .refl).held]
    · rwa [hvalidate]

lemma owns (h : Overrated n k steps) : (after steps).Owns n k := ⟨.projectOntologies, rfl, h.mem_held⟩

/-- A project is not owned. -/
lemma not_owned (h : Overrated n k steps) (p : NodeHandle) : ¬ (after steps).Owns p n := by
  have hs := sound_after steps
  obtain ⟨system, hc⟩ := hs.shaped.exists_project h.mem_held
  exact fun hown => not_project_of_owned hs (sorted_after steps) hown system hc

end Overrated

/-- What a marked node owns is marked, or taken for valid. -/
theorem marked_or_overrated (steps : List SessionStep)
    (hn : (after steps).isValidated n = true) (hown : (after steps).Owns n c) :
    (after steps).isValidated c = true ∨ Overrated n c steps := by
  induction steps using List.reverseRecOn with
  | nil =>
    rw [isValidated, show after [] = {} from rfl, get?_empty] at hn
    cases hn
  | append_singleton steps step ih =>
    have hs := sound_after steps
    cases hc : (after (steps ++ [step])).isValidated c with
    | true => exact .inl rfl
    | false =>
      right
      have hlater : (after steps).isValidated n = true → (after steps).Owns n c →
          (after steps).isValidated c = false → Overrated n c (steps ++ [step]) := by
        intro hn' hown' hc'
        exact ((ih hn' hown').resolve_left (Bool.eq_false_iff.1 hc')).append hn hc
      rw [after_append] at hn hown hc
      rcases upholds_or_validate hs step with hu | ⟨h, rfl⟩
      · obtain ⟨hn', hsame⟩ := hu.retains n hn
        have hown' := (hsame n .refl).owns_iff.1 hown
        have hkept := hu.sustains n c hn hown'
        exact hlater hn' hown' (Bool.eq_false_iff.2 fun hc' => Bool.eq_false_iff.1 hc (hkept hc'))
      · change ((after steps).validate h).value.2.isValidated c = false at hc
        have hown' := (Unchanged.of_sameNodes (sameNodes_validate (after steps) h)).owns_iff.1 hown
        have hkept := isValidated_validate_of_isValidated (s := after steps) h (k := c)
        cases hn' : (after steps).isValidated n with
        | true =>
          exact hlater hn' hown' (Bool.eq_false_iff.2 fun hc' => Bool.eq_false_iff.1 hc (hkept hc'))
        | false =>
          -- the node is marked by this step, while what it owns is looked at
          have hneeds := hs.needs_of_owns hown'
          obtain ⟨hback, hv⟩ :=
            (needs_of_isValidated_validate hn' hn hneeds).resolve_left (Bool.eq_false_iff.1 hc)
          obtain ⟨hm, hdraws⟩ :=
            ontology_of_circle hs (sorted_after steps) (named_after steps) hown' hback
          refine ⟨steps, h, [], rfl, hn', hv, hm, hdraws, fun part hpart => ?_⟩
          rw [List.prefix_nil.1 hpart, after_append]
          exact ⟨hn, hc⟩

/-- What a valid node owns is valid, or taken for valid. -/
lemma valid_or_overrated (steps : List SessionStep)
    (hn : ((after steps).validate n).value.1 = true) (hown : (after steps).Owns n c) :
    ((after steps).validate c).value.1 = true ∨ Overrated n c steps := by
  cases hv : (after steps).isValidated n with
  | true =>
    exact (marked_or_overrated steps hv hown).imp_left fun hc => (validate_iff _ c).2 (.inl hc)
  | false =>
    left
    rw [validate_iff, hv] at hn
    rw [validate_iff]
    cases hc : (after steps).isValidated c with
    | true => exact .inl rfl
    | false =>
      have hlead : (after steps).LeadsTo n c := ⟨(sound_after steps).needs_of_owns hown, hc⟩
      exact .inr fun m hm => hn.resolve_left Bool.false_ne_true m (.head hlead hm)

/-- What goes down from owners to what they own but for ontologies that are taken for valid, goes down from a node to
all that it owns but for what such an ontology owns. -/
lemma below_or_overrated {P : NodeHandle → Prop}
    (hstep : ∀ p c, P p → (after steps).Owns p c → P c ∨ Overrated p c steps) (hn : P n)
    (hc : ReflTransGen (after steps).Owns n c) :
    P c ∨ ∃ k, Overrated n k steps ∧ ¬ P k ∧ ReflTransGen (after steps).Owns k c := by
  induction hc with
  | refl => exact .inl hn
  | @tail p c hp hown ih =>
    rcases ih with hP | ⟨k, hk, hno, hkp⟩
    · by_cases hc : P c
      · exact .inl hc
      · have hover := (hstep p c hP hown).resolve_left hc
        -- only the node itself can be a project
        rcases ReflTransGen.cases_tail hp with rfl | ⟨q, -, hq⟩
        · exact .inr ⟨c, hover, hc, .refl⟩
        · exact (hover.not_owned q hq).elim
    · exact .inr ⟨k, hk, hno, hkp.tail hown⟩

/-- What a valid node owns, directly or not, is valid, unless it is or is owned by an ontology that was taken for valid
when the node was marked and is not valid.  After a node has been found valid, everything that it owns is found valid
with nothing to report and nothing to do, unless it is or is owned by such an ontology; and such an ontology is not. -/
theorem owned_valid_unless_overrated (steps : List SessionStep) (n : NodeHandle)
    (hn : ((after steps).validate n).value.1 = true) :
    (∀ c, TransGen (after steps).Owns n c → ((after steps).validate c).value.1 = true ∨
      ∃ k, Overrated n k steps ∧ ((after steps).validate k).value.1 = false ∧
        ReflTransGen (after steps).Owns k c) ∧
    (∀ c, TransGen (after (steps ++ [.validate n])).Owns n c →
      (after (steps ++ [.validate n])).validate c = pure (true, after (steps ++ [.validate n])) ∨
      ∃ k, Overrated n k (steps ++ [.validate n]) ∧
        ReflTransGen (after (steps ++ [.validate n])).Owns k c) ∧
    ∀ k, Overrated n k (steps ++ [.validate n]) →
      (after (steps ++ [.validate n])).Owns n k ∧
      (after (steps ++ [.validate n])).validate k ≠ pure (true, after (steps ++ [.validate n])) := by
  have hmarked : (after (steps ++ [.validate n])).isValidated n = true := by
    rw [after_append]
    exact isValidated_validate hn
  generalize steps ++ [.validate n] = later at hmarked
  refine ⟨fun c hc => ?_, fun c hc => ?_, fun k hk => ⟨hk.owns, fun e => ?_⟩⟩
  · have hstep : ∀ p c, ((after steps).validate p).value.1 = true → (after steps).Owns p c →
        ((after steps).validate c).value.1 = true ∨ Overrated p c steps :=
      fun p c => valid_or_overrated steps
    rcases below_or_overrated hstep hn hc.to_reflTransGen with hv | ⟨k, hk, hno, hkc⟩
    · exact .inl hv
    · exact .inr ⟨k, hk, Bool.eq_false_iff.2 hno, hkc⟩
  · have hstep : ∀ p c, (after later).isValidated p = true → (after later).Owns p c →
        (after later).isValidated c = true ∨ Overrated p c later :=
      fun p c => marked_or_overrated later
    rcases below_or_overrated hstep hmarked hc.to_reflTransGen with hv | ⟨k, hk, -, hkc⟩
    · exact .inl (validate_of_isValidated hv)
    · exact .inr ⟨k, hk, hkc⟩
  · -- otherwise it would be marked
    have hv : (after later).isValidated k = true := by
      have hv := isValidated_validate (s := after later) (h := k) (by rw [e]; rfl)
      rwa [e] at hv
    exact Bool.eq_false_iff.1 hk.not_marked hv

/-- A session in which the project of an ontology is among the typesystems of the ontology, and the ontology has a class
whose name is not valid. -/
def circularProjectSession : List SessionStep :=
  [.operate .createProject, .operate (.createProjectOntology ⟨6, 1⟩ "o"),
    .operate (.createClass ⟨7, 1⟩ "1" .any none false false),
    .operate (.addOntologyTypesystem ⟨7, 1⟩ ⟨6, 1⟩), .validate ⟨7, 1⟩]

/-- The class is not valid, although the project is, and it is owned by an ontology of the project that was taken for
valid. -/
theorem owned_valid_unless_overrated_circularProjectSession :
    ((after circularProjectSession).validate ⟨6, 1⟩).value.1 = true ∧
      ((after circularProjectSession).validate ⟨8, 1⟩).value.1 = false ∧
      ∃ k, Overrated ⟨6, 1⟩ k circularProjectSession ∧
        ((after circularProjectSession).validate k).value.1 = false ∧
        ReflTransGen (after circularProjectSession).Owns k ⟨8, 1⟩ := by
  have hp : ((after circularProjectSession).validate ⟨6, 1⟩).value.1 = true := by decide +kernel
  have hc : ((after circularProjectSession).validate ⟨8, 1⟩).value.1 = false := by decide +kernel
  have ho : (after circularProjectSession).Owns ⟨6, 1⟩ ⟨7, 1⟩ :=
    ⟨.projectOntologies, rfl, by decide +kernel⟩
  have hoc : (after circularProjectSession).Owns ⟨7, 1⟩ ⟨8, 1⟩ :=
    ⟨.ontologyClasses, rfl, by decide +kernel⟩
  obtain ⟨hvalid, -⟩ := owned_valid_unless_overrated circularProjectSession ⟨6, 1⟩ hp
  refine ⟨hp, hc, (hvalid ⟨8, 1⟩ (.tail (.single ho) hoc)).resolve_left fun h => ?_⟩
  rw [hc] at h
  cases h

/-- The project is found valid, and after that the ontology that it owns is not. -/
theorem not_valid_circularProjectSession :
    ((after circularProjectSession).validate ⟨6, 1⟩).value.1 = true ∧
      ⟨7, 1⟩ ∈ (after (circularProjectSession ++ [.validate ⟨6, 1⟩])).listed ⟨6, 1⟩ .projectOntologies ∧
      ((after (circularProjectSession ++ [.validate ⟨6, 1⟩])).validate ⟨7, 1⟩).value.1 = false := by
  decide +kernel

end Semdoc.Store
