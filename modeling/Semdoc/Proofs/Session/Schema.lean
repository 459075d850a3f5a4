import Semdoc.Proofs.Session.Kinds
import Semdoc.Proofs.Session.Scope

/-!
# Changes of a schema

Entities hold their content by the numbers of fields.  When fields are added or moved, or change their kind, or
a class gets another superclass, the fields of a class may get other numbers; the content of its entities stays
where it is, so that it is found in other fields afterwards.
-/

namespace Semdoc

open Store

/-- Operations that change which fields classes have, or their order. -/
def Operation.editsSchema : Operation → Bool
  | createField .. | addField .. | moveField .. | setFieldType .. | setSuperclass .. => true
  | _ => false

namespace Store

/-- Everything but the content of entities. -/
def schemaScope : Scope where
  slots slot := slot.isField = false
  adds _ := True
  revises _ _ := True

/-- A change of a schema touches no content of entities. -/
lemma within_of_editsSchema {s : Store} (hs : s.Sound) (ho : s.Sorted) {op : Operation}
    (hop : op.editsSchema = true) : Within schemaScope s (op.run s) := by
  cases op with
  | createField d type name optional primitiveType =>
    exact Edit.within_createField d name rfl trivial s hs ho
  | addField d field => exact Edit.within_addField d field rfl s hs ho
  | moveField d field => exact Edit.within_moveField d field rfl s hs ho
  | setFieldType field type => exact Edit.within_setFieldType field rfl (fun _ => trivial) s hs ho
  | setSuperclass h superclass =>
    exact Edit.within_setSuperclass h superclass rfl (fun _ => trivial) (fun _ _ => trivial) s hs ho
  | _ => cases hop

/-- The nodes that an entity holds under a field of its class. -/
def contentUnder (s : Store) (e field : NodeHandle) : Except EditFault (List NodeHandle) :=
  (s.numberOfField e field).map (s.fieldContent e)

/-- Nothing is in two fields of an entity. -/
lemma Sound.fieldContent_eq_iff {s : Store} (hs : s.Sound) (e : NodeHandle) (i j : Nat) :
    s.fieldContent e j = s.fieldContent e i ↔
      j = i ∨ s.fieldContent e i = [] ∧ s.fieldContent e j = [] := by
  constructor
  · intro h
    cases hc : s.fieldContent e i with
    | nil => exact .inr ⟨rfl, h.trans hc⟩
    | cons c r =>
      have hmem : ∀ {n}, s.fieldContent e n = c :: r → c ∈ s.held e (.entityField n) := by
        intro n hn
        rw [← listed_eq_held e rfl, ← fieldContent, hn]
        exact List.mem_cons_self
      obtain ⟨-, hslot⟩ := hs.eq_of_held rfl rfl (hmem (h.trans hc)) (hmem hc)
      cases hslot
      exact .inl rfl
  · rintro (rfl | ⟨hi, hj⟩)
    · rfl
    · rw [hi, hj]

/-- A change of a schema leaves the content of every entity at its number.  So what is under a field of an
entity afterwards is what was at the new number of the field before, and it is the same as before if and only if
the field has kept its number, or there is nothing at its old number and nothing at its new one. -/
theorem contentUnder_of_editsSchema (steps : List SessionStep) (op : Operation)
    (hop : op.editsSchema = true) (e field : NodeHandle) (i j : Nat)
    (hi : (after steps).numberOfField e field = .ok i)
    (hj : (op.run (after steps)).numberOfField e field = .ok j) :
    (∀ h number, (op.run (after steps)).fieldContent h number =
      (after steps).fieldContent h number) ∧
    (op.run (after steps)).contentUnder e field = .ok ((after steps).fieldContent e j) ∧
    ((op.run (after steps)).contentUnder e field = (after steps).contentUnder e field ↔
      j = i ∨ (after steps).fieldContent e i = [] ∧ (after steps).fieldContent e j = []) := by
  have hs := sound_after steps
  have hw := within_of_editsSchema hs (sorted_after steps) hop
  have hsame : ∀ h number, (op.run (after steps)).fieldContent h number =
      (after steps).fieldContent h number := by
    intro h number
    rw [fieldContent, listed_eq_held h rfl, hw.held (fun h => by cases h), fieldContent,
      listed_eq_held h rfl]
  have hbefore : (after steps).contentUnder e field = .ok ((after steps).fieldContent e i) := by
    rw [contentUnder, hi]
    rfl
  have hafter : (op.run (after steps)).contentUnder e field =
      .ok ((after steps).fieldContent e j) := by
    rw [contentUnder, hj, ← hsame e j]
    rfl
  refine ⟨hsame, hafter, ?_⟩
  rw [hbefore, hafter, Except.ok.injEq]
  exact hs.fieldContent_eq_iff e i j

/-- A session that creates a class with a tree field, and an entity of the class with an anchor in the field. -/
def bodySession : List SessionStep :=
  [.operate (.createOntology "o"), .operate (.createClass ⟨1, 1⟩ "c" .any none false true),
    .operate (.createField ⟨2, 1⟩ .tree "body" false none), .operate (.createDocument "d"),
    .operate (.createRoot ⟨5, 1⟩ ⟨2, 1⟩ none ""), .operate (.createAnchor ⟨6, 1⟩ "body")]

/-- The class gets an additional field. -/
def addsHeading : Operation := .createField ⟨2, 1⟩ .subtree "heading" false none

/-- The additional field takes the number of the tree field, and the anchor with it. -/
theorem contentUnder_of_editsSchema_bodySession :
    addsHeading.editsSchema = true ∧
      (after bodySession).contentUnder ⟨6, 1⟩ ⟨4, 1⟩ = .ok [⟨7, 1⟩] ∧
      (addsHeading.run (after bodySession)).contentUnder ⟨6, 1⟩ ⟨4, 1⟩ = .ok [] ∧
      (addsHeading.run (after bodySession)).fieldContent ⟨6, 1⟩ 0 = [⟨7, 1⟩] := by
  have hi : (after bodySession).numberOfField ⟨6, 1⟩ ⟨4, 1⟩ = .ok 0 := by decide +kernel
  have hj : (addsHeading.run (after bodySession)).numberOfField ⟨6, 1⟩ ⟨4, 1⟩ = .ok 1 := by decide +kernel
  have hcontent : (after bodySession).fieldContent ⟨6, 1⟩ 0 = [⟨7, 1⟩] := by decide +kernel
  have hnone : (after bodySession).fieldContent ⟨6, 1⟩ 1 = [] := by decide +kernel
  obtain ⟨hsame, hafter, -⟩ := contentUnder_of_editsSchema bodySession addsHeading rfl _ _ 0 1 hi hj
  refine ⟨rfl, ?_, ?_, ?_⟩
  · rw [contentUnder, hi, ← hcontent]
    rfl
  · rw [hafter, hnone]
  · rw [hsame, hcontent]

/-- The tree field is still one of the fields of the entity, but what was under it is not. -/
theorem contentUnder_ne_bodySession :
    (∃ i, (after bodySession).numberOfField ⟨6, 1⟩ ⟨4, 1⟩ = .ok i) ∧
      (∃ j, (addsHeading.run (after bodySession)).numberOfField ⟨6, 1⟩ ⟨4, 1⟩ = .ok j) ∧
      (addsHeading.run (after bodySession)).contentUnder ⟨6, 1⟩ ⟨4, 1⟩ ≠
        (after bodySession).contentUnder ⟨6, 1⟩ ⟨4, 1⟩ :=
  ⟨⟨0, by decide +kernel⟩, ⟨1, by decide +kernel⟩, by decide +kernel⟩

end Store

end Semdoc
