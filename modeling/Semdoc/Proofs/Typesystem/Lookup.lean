import Semdoc.Proofs.Typesystem.ArrayTypes

/-!
# Looking types up

A typesystem sees the types of all that it includes, directly or not, and typesystems may include each other
in circles.  They are looked through one after the other, each before what it includes, and what it includes in
the order of inclusion.  The typesystem that comes first in this order hides types of the same name in all others.
-/

namespace Semdoc

open Relation

namespace Store

variable {s : Store} {typesystem u t : NodeHandle} {name : String}

/-- A typesystem includes another one. -/
def Includes (s : Store) (typesystem u : NodeHandle) : Prop :=
  u ∈ s.listed typesystem .typesystemIncludes

/-- A typesystem has a type of a name. -/
def HasType (s : Store) (name : String) (typesystem : NodeHandle) : Prop :=
  ∃ t ∈ s.listed typesystem .typesystemTypes, s.name t = name

lemma listed_eq (s : Store) (o : NodeHandle) (slot : Slot) :
    s.listed o slot = (s.rosterAt o slot).items := by
  unfold listed rosterAt
  cases s.get? o with
  | none => rfl
  | some n => exact n.listed_eq slot

section Mirrored

variable (hm : s.Mirrored fun slot => slot.isComposition = true)
include hm

/-- A type that is found is a type of the typesystem, and it carries the name. -/
lemma Mirrored.mem_listed_of_childNamed? (h : s.childNamed? u .typesystemTypes name = some t) :
    t ∈ s.listed u .typesystemTypes ∧ s.name t = name := by
  rw [childNamed?_eq] at h
  rw [listed_eq]
  exact (hm.mirrors u .typesystemTypes rfl).of_resolve? h

lemma Mirrored.isSome_childNamed?_iff (hname : name ≠ "") :
    (s.childNamed? u .typesystemTypes name).isSome = true ↔ s.HasType name u := by
  constructor
  · intro h
    obtain ⟨t, ht⟩ := Option.isSome_iff_exists.1 h
    exact ⟨t, hm.mem_listed_of_childNamed? ht⟩
  · rintro ⟨t, ht, rfl⟩
    rw [listed_eq] at ht
    rw [childNamed?_eq]
    exact (hm.mirrors u .typesystemTypes rfl).resolve?_isSome ht hname

end Mirrored

section Includes

variable (s : Store) (typesystem : NodeHandle)

/-- All that a walk over the included typesystems can meet. -/
lemma includes_subset_linked :
    ∀ u ∈ typesystem :: s.linked, s.listed u .typesystemIncludes ⊆ typesystem :: s.linked :=
  fun u _ _ hv => List.mem_cons_of_mem _ (s.listed_subset_linked u .typesystemIncludes hv)

/-- There are rounds enough for all of them. -/
lemma includes_length_lt_rounds :
    (typesystem :: s.linked).length < ([] : List NodeHandle).length + (s.extent + 1) := by
  simpa using s.length_linked_lt

lemma explores_visibleTypesystems :
    Walk.Explores (s.listed · .typesystemIncludes) [typesystem] []
      (s.visibleTypesystems typesystem) :=
  Walk.explores_depthFirst (s.includes_subset_linked typesystem)
    (List.cons_subset_cons _ (List.nil_subset _)) (List.nil_subset _) List.nodup_nil
    (s.includes_length_lt_rounds typesystem)

/-- The rounds of the walk over the included typesystems never run out. -/
lemma depthFirst_includes_add (more : Nat) :
    Walk.depthFirst (s.listed · .typesystemIncludes) (s.extent + 1 + more) [typesystem] [] =
      s.visibleTypesystems typesystem :=
  Walk.depthFirst_of_le (s.includes_subset_linked typesystem)
    (List.cons_subset_cons _ (List.nil_subset _)) (List.nil_subset _) List.nodup_nil
    (s.includes_length_lt_rounds typesystem) (Nat.le_add_right _ _)

lemma mem_visibleTypesystems_iff :
    u ∈ s.visibleTypesystems typesystem ↔ ReflTransGen s.Includes typesystem u := by
  rw [visibleTypesystems, Walk.mem_depthFirst_iff (s.includes_subset_linked typesystem)
    (List.cons_subset_cons _ (List.nil_subset _)) (by simpa using s.length_linked_lt)]
  simp only [List.mem_singleton, exists_eq_left]
  rfl

end Includes

/-- A typesystem and all that it includes can be explored in one order only, in which the search for a type goes
through them: more rounds would change nothing.  A type of a name is found if any of them has one, and it is a type
of the first one in this order that has. -/
theorem lookupType_finds_first (steps : List SessionStep) (typesystem : NodeHandle) (name : String)
    (hname : name ≠ "") :
    ∃ order, (∀ l, Walk.Explores ((after steps).listed · .typesystemIncludes) [typesystem] [] l ↔
        l = order) ∧
      (∀ more, Walk.depthFirst ((after steps).listed · .typesystemIncludes)
        ((after steps).extent + 1 + more) [typesystem] [] = order) ∧
      (∀ u, u ∈ order ↔ ReflTransGen (after steps).Includes typesystem u) ∧
      (((after steps).lookupType typesystem name).isSome = true ↔
        ∃ u, ReflTransGen (after steps).Includes typesystem u ∧ (after steps).HasType name u) ∧
      ∀ t, (after steps).lookupType typesystem name = some t →
        ∃ before u rest, order = before ++ u :: rest ∧
          (∀ v ∈ before, ¬ (after steps).HasType name v) ∧
          t ∈ (after steps).listed u .typesystemTypes ∧ (after steps).name t = name := by
  have hm := mirrored_isComposition_after steps
  generalize after steps = s at *
  have hexplores := s.explores_visibleTypesystems typesystem
  refine ⟨s.visibleTypesystems typesystem, fun l => ⟨fun h => h.unique hexplores, ?_⟩,
    s.depthFirst_includes_add typesystem, fun u => s.mem_visibleTypesystems_iff typesystem, ?_, ?_⟩
  · rintro rfl
    exact hexplores
  · rw [lookupType, List.findSome?_isSome_iff]
    simp only [mem_visibleTypesystems_iff, hm.isSome_childNamed?_iff hname]
  · intro t ht
    obtain ⟨before, u, rest, horder, hu, hbefore⟩ := List.findSome?_eq_some_iff.1 ht
    refine ⟨before, u, rest, horder, fun v hv => ?_, hm.mem_listed_of_childNamed? hu⟩
    rw [← hm.isSome_childNamed?_iff hname, hbefore v hv]
    simp

/-- A session in which two typesystems include each other and two others have a type of the same name, one of which
includes the other. -/
def includeCircleSession : List SessionStep :=
  [.operate (.createTypesystem "a"), .operate (.createTypesystem "b"),
    .operate (.createTypesystem "c"), .operate (.createTypesystem "d"),
    .operate (.createType ⟨3, 1⟩ "t" .int), .operate (.createType ⟨4, 1⟩ "t" .int),
    .operate (.addTypesystemInclude ⟨1, 1⟩ ⟨2, 1⟩), .operate (.addTypesystemInclude ⟨1, 1⟩ ⟨3, 1⟩),
    .operate (.addTypesystemInclude ⟨2, 1⟩ ⟨1, 1⟩), .operate (.addTypesystemInclude ⟨2, 1⟩ ⟨4, 1⟩),
    .operate (.addTypesystemInclude ⟨3, 1⟩ ⟨4, 1⟩)]

/-- The type of the typesystem that lies deeper is found, since it comes first. -/
theorem lookupType_finds_first_includeCircleSession :
    "t" ≠ "" ∧ (after includeCircleSession).lookupType ⟨1, 1⟩ "t" = some ⟨6, 1⟩ ∧
      (after includeCircleSession).HasType "t" ⟨3, 1⟩ ∧
      ⟨3, 1⟩ ∈ (after includeCircleSession).listed ⟨1, 1⟩ .typesystemIncludes ∧
      ∃ before u rest,
        Walk.Explores ((after includeCircleSession).listed · .typesystemIncludes) [⟨1, 1⟩] []
          (before ++ u :: rest) ∧
        (∀ v ∈ before, ¬ (after includeCircleSession).HasType "t" v) ∧
        ⟨6, 1⟩ ∈ (after includeCircleSession).listed u .typesystemTypes := by
  have hname : "t" ≠ "" := by decide
  have hfound : (after includeCircleSession).lookupType ⟨1, 1⟩ "t" = some ⟨6, 1⟩ := by decide +kernel
  have hother : (after includeCircleSession).HasType "t" ⟨3, 1⟩ :=
    ⟨⟨5, 1⟩, by decide +kernel, by decide +kernel⟩
  have hnear : ⟨3, 1⟩ ∈ (after includeCircleSession).listed ⟨1, 1⟩ .typesystemIncludes := by decide +kernel
  obtain ⟨order, hexplores, -, -, -, hfirst⟩ := lookupType_finds_first includeCircleSession ⟨1, 1⟩ "t" hname
  obtain ⟨before, u, rest, horder, hbefore, ht, -⟩ := hfirst ⟨6, 1⟩ hfound
  exact ⟨hname, hfound, hother, hnear, before, u, rest, (hexplores _).2 horder.symm, hbefore, ht⟩

end Store

end Semdoc
