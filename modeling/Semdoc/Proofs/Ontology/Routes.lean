import Mathlib.Data.Nat.Find
import Mathlib.Logic.Relation
import Semdoc.Ontology.Query
import Semdoc.Proofs.Store.Views
import Semdoc.Proofs.Walk

/-!
# Routes through transparent classes

What a field may hold and what lies behind a field is said here by relations between classes and
fields, without a search.  A route leads from a class or a field through transparent classes to a
tree field; it is a path to every class that this field may hold.
-/

namespace Semdoc.Store

open Relation

variable {s : Store}

/-! ## What a field may hold -/

/-- A field declares a class, or one from which the class inherits. -/
def Permits (s : Store) (field c : NodeHandle) : Prop :=
  ∃ d ∈ s.declaredChildren field, ReflTransGen (fun a b => b ∈ s.subclasses a) d c

/-- However classes inherit from each other, the walk through the subclasses finds all of them. -/
lemma mem_permittedChildren_iff {field c : NodeHandle} :
    c ∈ s.permittedChildren field ↔ s.Permits field c :=
  Walk.mem_breadthFirst_iff (fun h _ => s.listed_subset_linked h .classSubclasses)
    (s.listed_subset_linked field .fieldChildren) s.length_linked_lt

lemma permittedChildren_subset_linked (field : NodeHandle) :
    s.permittedChildren field ⊆ s.linked := by
  intro c hc
  obtain ⟨d, hd, hc⟩ := mem_permittedChildren_iff.1 hc
  obtain rfl | ⟨b, _, hc⟩ := ReflTransGen.cases_tail hc
  · exact s.listed_subset_linked field .fieldChildren hd
  · exact s.listed_subset_linked b .classSubclasses hc

/-- A walk that begins with one class more has one round more. -/
lemma length_cons_linked_lt (s : Store) (start : NodeHandle) :
    (start :: s.linked).length < s.extent + 1 := by
  simpa using s.length_linked_lt

/-- The rounds of the walk through the subclasses never run out. -/
lemma breadthFirst_subclasses_add (field : NodeHandle) (more : Nat) :
    Walk.breadthFirst s.subclasses (s.extent + more) (s.declaredChildren field) [] =
      s.permittedChildren field :=
  Walk.breadthFirst_of_le (fun h _ => s.listed_subset_linked h .classSubclasses)
    (s.listed_subset_linked field .fieldChildren) (List.nil_subset _) List.nodup_nil
    (by simpa using s.length_linked_lt) (Nat.le_add_right _ _)

lemma superclass?_mem_linked {c d : NodeHandle} (hd : s.superclass? c = some d) : d ∈ s.linked := by
  obtain ⟨content, hc, hd⟩ := Option.bind_eq_some_iff.1 hd
  unfold class? at hc
  split at hc
  · next content' hcontent =>
    cases hc
    exact references_subset_linked hcontent (Option.mem_toList.2 hd)
  · cases hc

lemma live?_eq_some_iff {x y : NodeHandle} : s.live? x = some y ↔ x = y ∧ s.contains x = true := by
  unfold live?
  split <;> simp_all

/-- The rounds of the walk along the superclasses never run out. -/
lemma follow_superclass_add (c : NodeHandle) (more : Nat) :
    Walk.follow (fun c => (s.superclass? c).bind s.live?) (s.extent + 1 + more) (s.live? c) [] =
      s.classLine c :=
  Walk.follow_there_of_le (fun _ _ => live?_eq_some_iff) (fun _ _ => superclass?_mem_linked)
    (s.length_cons_linked_lt c) (Nat.le_add_right _ _)

lemma mem_transparentChildren_iff {field c : NodeHandle} :
    c ∈ s.transparentChildren field ↔ s.Permits field c ∧ s.isTransparent c = true := by
  rw [transparentChildren, List.mem_filter, mem_permittedChildren_iff]

/-! ## Routes -/

/-- From a start a path of fields and classes leads through a number of transparent classes to a
tree field.  A field as the start is not part of the path; otherwise the path begins with a tree
field of the start. -/
inductive Route (s : Store) (start : NodeHandle) : Nat → NodeHandle → List NodeHandle → Prop
  | field (h : s.isA start .fieldDescriptor = true) : Route s start 0 start []
  | own {f : NodeHandle} (h : s.isA start .fieldDescriptor = false) (hf : f ∈ s.treeFields start) :
    Route s start 0 f [f]
  | through {n : Nat} {f c g : NodeHandle} {path : List NodeHandle} (h : Route s start n f path)
      (hc : s.Permits f c) (ht : s.isTransparent c = true) (hg : g ∈ s.treeFields c) :
    Route s start (n + 1) g (path ++ [c, g])

/-- A path leads through a number of transparent classes to a field that permits the target. -/
def IsPath (s : Store) (start target : NodeHandle) (n : Nat) (path : List NodeHandle) : Prop :=
  ∃ f, s.Route start n f path ∧ s.Permits f target

/-- No path leads to the target through fewer classes. -/
def IsShortest (s : Store) (start target : NodeHandle) (path : List NodeHandle) : Prop :=
  ∃ n, s.IsPath start target n path ∧ ∀ m q, s.IsPath start target m q → n ≤ m

/-- The last class of a path, if it has one, and the last field. -/
def ending (path : List NodeHandle) : List NodeHandle := path.drop (path.length - 2)

/-- With every class there is a field on the path, so that fewer classes make a shorter path. -/
lemma Route.classes_eq {start f : NodeHandle} {n : Nat} {path : List NodeHandle}
    (h : s.Route start n f path) : path.length / 2 = n := by
  induction h with
  | field _ => rfl
  | own _ _ => simp
  | through _ _ _ _ ih =>
    rw [List.length_append, ← ih]
    exact Nat.add_div_right _ Nat.two_pos

lemma ending_append (path : List NodeHandle) (c g : NodeHandle) :
    ending (path ++ [c, g]) = [c, g] := by
  rw [ending, List.length_append]
  exact List.drop_left

lemma exists_isShortest {start target : NodeHandle} {n : Nat} {path : List NodeHandle}
    (h : s.IsPath start target n path) : ∃ p, s.IsShortest start target p := by
  classical
  have hex : ∃ n, ∃ p, s.IsPath start target n p := ⟨n, path, h⟩
  obtain ⟨p, hp⟩ := Nat.find_spec hex
  exact ⟨p, Nat.find hex, hp, fun m q hq => Nat.find_min' hex ⟨q, hq⟩⟩

/-- A transparent class is no field, so that its tree fields are where routes from it begin. -/
lemma Route.of_isTransparent {start g : NodeHandle} (ht : s.isTransparent start = true)
    (hg : g ∈ s.treeFields start) : s.Route start 0 g [g] := by
  refine .own ?_ hg
  unfold isTransparent class? content? at ht
  unfold isA
  cases hn : s.get? start with
  | none => rfl
  | some n =>
    rw [hn, Option.map_some] at ht
    rw [Option.map_some, Option.getD_some, Node.tag]
    cases hc : n.content with
    | structuredClass c =>
      change TypeTag.isA .structuredClass .fieldDescriptor = false
      decide +kernel
    | _ => rw [hc] at ht; cases ht

end Semdoc.Store
