import Mathlib.Data.List.Nodup
import Semdoc.Proofs.Session.Operation
import Semdoc.Proofs.Typesystem.Preparation
import Semdoc.Proofs.Value.Entries

/-!
# Structs by position and by name

A struct may be given as an array of values in the order of its attributes, or as a map of values under
the names of its attributes.  A map is kept in the order of its names, which is not that of the attributes.
The main statement is that the two ways come to the same all the same, whatever the values are and however
many of the last attributes are left out.
-/

namespace Semdoc.Store

variable {s : Store} {around : List NodeHandle} {t : NodeHandle} {vs : List Value}
  {es : Entries Value}

/-- The names of the attributes of a struct type and of its parents. -/
def attributeNames (s : Store) (t : NodeHandle) : List String :=
  (s.structAttributes t).map s.name

lemma length_attributeNames (s : Store) (t : NodeHandle) :
    (s.attributeNames t).length = (s.structAttributes t).length :=
  List.length_map _

/-- The values of an array under the names of the attributes. -/
def underNames (s : Store) (t : NodeHandle) (vs : List Value) : Entries Value :=
  Entries.ofPairs ((s.attributeNames t).zip vs)

section Names

variable (hn : (s.attributeNames t).Nodup)
include hn

/-- Under the name of an attribute stands the value at its place. -/
lemma find?_underNames {i : Nat} (hi : i < (s.attributeNames t).length) :
    ((s.underNames t vs).find? fun e => e.1 == (s.attributeNames t)[i]).map (·.2) = vs[i]? := by
  have hp := Entries.ofPairs_zip_perm hn vs
  by_cases hv : i < vs.length
  · have hmem : ((s.attributeNames t)[i], vs[i]) ∈ s.underNames t vs := by
      refine hp.mem_iff.2 (List.mem_iff_getElem.2 ⟨i, ?_, List.getElem_zip⟩)
      rw [List.length_zip]
      omega
    have hfound : (s.underNames t vs).find? (fun e => e.1 == (s.attributeNames t)[i]) = _ :=
      (Entries.sorted_ofPairs _).find?_of_mem hmem
    rw [hfound, List.getElem?_eq_getElem hv]
    rfl
  · rw [List.getElem?_eq_none (Nat.le_of_not_lt hv), Option.map_eq_none_iff, List.find?_eq_none]
    intro e he heq
    -- another place with the same name would have to be among the values
    obtain ⟨j, hj, rfl⟩ := List.mem_iff_getElem.1 (hp.mem_iff.1 he)
    rw [List.getElem_zip, beq_iff_eq] at heq
    rw [List.length_zip] at hj
    have hij : j = i := hn.getElem_inj_iff.1 heq
    omega

/-- The array and the map give the same to each attribute. -/
lemma givenTo_underNames : s.givenTo t (.map (s.underNames t vs)) = s.givenTo t (.array vs) := by
  refine List.map_congr_left fun ⟨a, i⟩ ha => ?_
  obtain ⟨hi, rfl⟩ : ∃ hi : i < (s.structAttributes t).length, (s.structAttributes t)[i] = a :=
    List.getElem?_eq_some_iff.1 (List.mk_mem_zipIdx_iff_getElem?.1 ha)
  have hlt : i < (s.attributeNames t).length := by rwa [length_attributeNames]
  have hname : s.name (s.structAttributes t)[i] = (s.attributeNames t)[i] :=
    (List.getElem_map _).symm
  have hfirst : (((s.structAttributes t).map s.name).findIdx? (· == (s.attributeNames t)[i]) ==
      some i) = true := by
    rw [beq_iff_eq]
    refine List.findIdx?_eq_some_iff_getElem.2 ⟨hlt, beq_self_eq_true _, fun j hj heq => ?_⟩
    exact absurd (hn.getElem_inj_iff.1 (eq_of_beq heq)) (Nat.ne_of_lt hj)
  show (_, ite _ _ _) = (_, _)
  rw [hname, if_pos hfirst, find?_underNames hn]

end Names

/-- There is an attribute for each name in the map. -/
lemma misplaced_underNames (hn : (s.attributeNames t).Nodup) :
    s.misplaced t (.map (s.underNames t vs)) = [] := by
  rw [misplaced, List.map_eq_nil_iff, List.filter_eq_nil_iff]
  intro e he
  have hmem : e.1 ∈ (s.structAttributes t).map s.name :=
    (List.of_mem_zip ((Entries.ofPairs_zip_perm hn vs).mem_iff.1 he)).1
  simpa using hmem

lemma misplaced_array_of_le (h : vs.length ≤ (s.structAttributes t).length) :
    s.misplaced t (.array vs) = [] :=
  if_neg (Nat.not_lt.2 h)

/-- A session that creates a type of boxes, which have the width of any shape, a color and a depth that is
one unless it is given. -/
def boxSession : List SessionStep :=
  [.operate .createSystemTypesystem, .operate (.createTypesystem "shapes"),
    .operate (.createEnumerationType ⟨6, 1⟩ "color" ["red", "green"]),
    .operate (.createStructType ⟨6, 1⟩ "shape"),
    .operate (.createAttribute ⟨8, 1⟩ "width" (some ⟨3, 1⟩) none),
    .operate (.createStructType ⟨6, 1⟩ "box"),
    .operate (.setStructParent ⟨10, 1⟩ (some ⟨8, 1⟩)),
    .operate (.createAttribute ⟨10, 1⟩ "color" (some ⟨7, 1⟩) none),
    .operate (.createAttribute ⟨10, 1⟩ "depth" (some ⟨3, 1⟩) (some (.int 1)))]

end Semdoc.Store
