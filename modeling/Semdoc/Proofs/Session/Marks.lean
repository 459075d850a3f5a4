import Mathlib.Data.List.Infix
import Semdoc.Proofs.Session.Ownership
import Semdoc.Proofs.Store.Retain
import Semdoc.Proofs.Validation.Search

/-!
# Marks in a session

A mark says that its node was found valid at some time.  What the node owns has not changed since then,
but what it rests on may have changed, so that validation may find it valid where it would not find it
valid without any marks.
-/

namespace Semdoc.Store

open Relation

lemma after_append (steps : List SessionStep) (step : SessionStep) :
    after (steps ++ [step]) = step.run (after steps) := by
  rw [after, List.foldl_append, List.foldl_cons, List.foldl_nil, after]

/-- Every store in a session is sound, also after nodes have been dropped. -/
theorem sound_after (steps : List SessionStep) : (after steps).Sound := by
  induction steps using List.reverseRecOn with
  | nil => exact .empty
  | append_singleton steps step ih =>
    rw [after_append]
    cases step with
    | operate op => exact ih.changes (op.changes ih)
    | validate h => exact ih.of_quiet (.of_sameNodes (sameNodes_validate _ h))
    | collect => exact ih.collect

/-- A node that is marked after some steps has been marked by a validation among them, and nothing
about it and what it owns has changed after that. -/
def MarkedIn (n : NodeHandle) (steps : List SessionStep) : Prop :=
  ∃ before h since, steps = before ++ SessionStep.validate h :: since ∧
    (after before).isValidated n = false ∧ (after before).passes n = true ∧
    ∀ part, part <+: since →
      (after (before ++ .validate h :: part)).isValidated n = true ∧
      ∀ m, ReflTransGen (after steps).Owns n m →
        Unchanged (after (before ++ .validate h :: part)) (after steps) m

/-- One more step after which the node is still marked. -/
lemma MarkedIn.append {n : NodeHandle} {steps : List SessionStep} {step : SessionStep}
    (h : MarkedIn n steps) (hn : (after (steps ++ [step])).isValidated n = true)
    (hu : ∀ m, ReflTransGen (after steps).Owns n m →
      Unchanged (after steps) (after (steps ++ [step])) m) :
    MarkedIn n (steps ++ [step]) := by
  obtain ⟨before, h, since, rfl, hno, hp, hall⟩ := h
  refine ⟨before, h, since ++ [step], by simp, hno, hp, fun part hpart => ?_⟩
  rcases List.prefix_concat_iff.1 hpart with rfl | hpart
  · have e : before ++ .validate h :: (since ++ [step]) =
        before ++ .validate h :: since ++ [step] := by simp
    rw [e]
    exact ⟨hn, fun m _ => .refl _ m⟩
  · obtain ⟨hv, hsame⟩ := hall part hpart
    refine ⟨hv, fun m hm => ?_⟩
    rw [Unchanged.reflTransGen_owns_iff hu] at hm
    exact (hsame m hm).trans (hu m hm)

/-- Every mark comes from a validation. -/
theorem markedIn_of_isValidated (steps : List SessionStep) (n : NodeHandle)
    (hn : (after steps).isValidated n = true) : MarkedIn n steps := by
  induction steps using List.reverseRecOn with
  | nil =>
    rw [isValidated, show after [] = {} from rfl, get?_empty] at hn
    cases hn
  | append_singleton steps step ih =>
    have hretains : Retains (after steps) (after (steps ++ [step])) →
        MarkedIn n (steps ++ [step]) := by
      intro hr
      obtain ⟨hv, hu⟩ := hr n hn
      exact (ih hv).append hn hu
    cases step with
    | operate op =>
      have hs := sound_after steps
      apply hretains
      rw [after_append]
      exact hs.retains_changes (op.changes hs)
    | validate h =>
      cases hv : (after steps).isValidated n with
      | true =>
        refine (ih hv).append hn fun m _ => ?_
        rw [after_append]
        exact .of_sameNodes (sameNodes_validate _ h)
      | false =>
        refine ⟨steps, h, [], rfl, hv, ?_, fun part hpart => ?_⟩
        · rw [after_append] at hn
          refine (passes_of_isValidated_validate hn).resolve_left fun e => ?_
          rw [hv] at e
          cases e
        · rw [List.prefix_nil.1 hpart]
          exact ⟨hn, fun m _ => .refl _ m⟩
    | collect =>
      apply hretains
      rw [after_append]
      exact (sound_after steps).retains_collect

/-- Marks never make validation fail.  They make it succeed wrongly only if a marked node which is
needed would not be found valid without marks; and such a node was marked by an earlier validation and
has kept name, content and slots since then, as has all that it owns. -/
theorem validation_with_marks (steps : List SessionStep) (n : NodeHandle) :
    (((after steps).unmarked.validate n).value.1 = true →
      ((after steps).validate n).value.1 = true) ∧
    (((after steps).validate n).value.1 = ((after steps).unmarked.validate n).value.1 ↔
      (((after steps).validate n).value.1 = true → ∀ m, ReflTransGen (after steps).Needs n m →
        (after steps).isValidated m = true →
        ((after steps).unmarked.validate m).value.1 = true)) ∧
    ((after steps).isValidated n = true → MarkedIn n steps) := by
  obtain ⟨hup, heq⟩ := validate_unmarked (after steps) n
  exact ⟨hup, heq, markedIn_of_isValidated steps n⟩

/-- A session in which a class is renamed after a subclass of it has been found valid. -/
def renamedSuperclassSession : List SessionStep :=
  [.operate (.createOntology "o"), .operate (.createClass ⟨1, 1⟩ "a" .any none false false),
    .operate (.createClass ⟨1, 1⟩ "b" .any (some ⟨2, 1⟩) false false), .validate ⟨4, 1⟩,
    .operate (.setName ⟨2, 1⟩ "1")]

/-- The subclass is found valid, although its superclass has no valid name. -/
theorem validate_ne_unmarked_renamedSuperclassSession :
    (after renamedSuperclassSession).contains ⟨4, 1⟩ = true ∧
      ((after renamedSuperclassSession).validate ⟨4, 1⟩).value.1 ≠
        ((after renamedSuperclassSession).unmarked.validate ⟨4, 1⟩).value.1 := by
  decide +kernel

end Semdoc.Store
