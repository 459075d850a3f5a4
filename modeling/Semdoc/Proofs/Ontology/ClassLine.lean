import Semdoc.Proofs.Ontology.Routes
import Semdoc.Proofs.Typesystem.WellFormed

/-!
# Lines of superclasses and parents

The line of a class has all classes that one comes to from superclass to superclass.  If one does not come back to
the class itself, its line is the class followed by the line of its superclass.  The line of a struct type is made
in the same way of its parents.
-/

namespace Semdoc

open Relation

namespace Walk

variable {α : Type u} [BEq α] [LawfulBEq α] {next : α → Option α} {rounds : Nat} {start : Option α}
  {seen : List α}

/-- What has been seen long before makes no difference to what is met if it is not met again. -/
lemma follow_append {before : List α}
    (h : ∀ x ∈ follow next rounds start seen, x ∈ seen ∨ x ∉ before) :
    follow next rounds start (seen ++ before) = before.reverse ++ follow next rounds start seen := by
  fun_induction follow next rounds start seen with
  | case1 => exact List.reverse_append
  | case2 rounds seen =>
    cases rounds <;> exact List.reverse_append
  | case3 rounds x seen hx =>
    have hx' : (seen ++ before).contains x = true := by
      simpa using Or.inl (List.contains_iff_mem.1 hx)
    rw [follow, if_pos hx', List.reverse_append]
  | case4 rounds x seen hx ih =>
    have hseen : x ∉ seen := by simpa using hx
    have hmet : x ∈ follow next rounds (next x) (x :: seen) :=
      seen_prefix_follow.subset (List.mem_reverse.2 List.mem_cons_self)
    have hnew : x ∉ before := (h x hmet).resolve_left hseen
    have hx' : ¬ (seen ++ before).contains x = true := by simp [hseen, hnew]
    rw [follow, if_neg hx']
    exact ih fun y hy => (h y hy).imp_left (List.mem_cons_of_mem x)

end Walk

namespace Store

variable {s : Store} {c p x y : NodeHandle}

/-- One comes from a class to its superclass, if that is still there. -/
def Ascends (s : Store) (c p : NodeHandle) : Prop :=
  s.superclass? c = some p ∧ s.contains p = true

lemma bind_live?_eq_some_iff : (s.superclass? c).bind s.live? = some p ↔ s.Ascends c p :=
  Walk.mem_bind_iff fun _ _ => live?_eq_some_iff

lemma Ascends.mem_linked (h : s.Ascends c p) : p ∈ s.linked := superclass?_mem_linked h.1

lemma mem_classLine_iff : y ∈ s.classLine c ↔ s.contains c = true ∧ ReflTransGen s.Ascends c y :=
  Walk.mem_follow_there_iff (fun _ _ => live?_eq_some_iff) (fun _ _ => superclass?_mem_linked)
    (s.length_cons_linked_lt c)

lemma nodup_classLine (c : NodeHandle) : (s.classLine c).Nodup := Walk.nodup_follow List.nodup_nil

/-- A class that one does not come back to is followed by the line of its superclass. -/
lemma classLine_eq_cons (hc : s.contains c = true) (hp : s.Ascends c p)
    (hcircle : ¬ TransGen s.Ascends c c) : s.classLine c = c :: s.classLine p := by
  have hlen := s.length_linked_lt
  have hfewer : s.classLine p =
      Walk.follow (fun c => (s.superclass? c).bind s.live?) s.extent (some p) [] := by
    unfold classLine
    rw [live?_eq_some_iff.2 ⟨rfl, hp.2⟩]
    refine Walk.follow_of_le s.linked ?_ ?_ (List.nil_subset _) List.nodup_nil ?_ (Nat.le_succ _)
    · exact fun a b hb => (bind_live?_eq_some_iff.1 hb).mem_linked
    · rintro b hb
      rw [← Option.mem_some_iff.1 hb]
      exact hp.mem_linked
    · simpa using hlen
  have hnew : ∀ x ∈ s.classLine p, x ∈ [] ∨ x ∉ [c] := by
    intro x hx
    right
    intro hxc
    rw [List.mem_singleton.1 hxc] at hx
    exact hcircle (.head' hp (mem_classLine_iff.1 hx).2)
  rw [hfewer] at hnew ⊢
  conv_lhs => unfold classLine
  rw [live?_eq_some_iff.2 ⟨rfl, hc⟩]
  simp only [Walk.follow, bind_live?_eq_some_iff.2 hp]
  exact Walk.follow_append hnew

lemma contains_of_superclass? (h : s.superclass? c = some p) : s.contains c = true := by
  obtain ⟨d, hd, -⟩ := Option.bind_eq_some_iff.1 h
  unfold class? at hd
  rw [contains_eq]
  cases hc : s.content? c with
  | none =>
    rw [hc] at hd
    cases hd
  | some _ => rfl

lemma isLine_classLine (s : Store) (c : NodeHandle) :
    Walk.IsLine (fun x => s.contains x = true) s.superclass? c (s.classLine c) :=
  Walk.isLine_follow (fun _ _ => live?_eq_some_iff) (fun _ _ => superclass?_mem_linked)
    (s.length_cons_linked_lt c)

/-- A circle is found also where the class itself is not on it. -/
lemma hasInheritanceCycle_iff :
    s.hasInheritanceCycle c = true ↔ Walk.Revisits s.superclass? c :=
  (isLine_classLine s c).revisits_iff fun _ _ => contains_of_superclass?

/-- Where no superclass is met twice, one does not come back. -/
lemma not_transGen_of_hasInheritanceCycle (h : s.hasInheritanceCycle c = false) :
    ¬ TransGen s.Ascends c c := by
  intro hcircle
  have hup : s.Ascends ≤ fun a b => s.superclass? a = some b := fun _ _ hxy => hxy.1
  have hrevisits : Walk.Revisits s.superclass? c := ⟨c, .refl, TransGen.mono hup c c hcircle⟩
  rw [hasInheritanceCycle_iff.2 hrevisits] at h
  cases h

/-! ## Lines of struct types -/

lemma shape?_of_structParent? (h : s.structParent? c = some p) :
    ∃ parent, s.shape? c = some (.struct parent) := by
  unfold structParent? at h
  split at h
  · next parent hc => exact ⟨parent, hc⟩
  · cases h

lemma isLine_structLine (s : Store) (t : NodeHandle) :
    Walk.IsLine (fun x => ∃ parent, s.shape? x = some (.struct parent)) s.structParent? t
      (s.structLine t) :=
  Walk.isLine_follow (fun _ _ => mem_struct?_iff) (fun _ _ => structParent?_mem_linked)
    (s.length_cons_linked_lt t)

lemma structHasCycle_iff : s.structHasCycle c = true ↔ Walk.Revisits s.structParent? c :=
  (isLine_structLine s c).revisits_iff fun _ _ => shape?_of_structParent?

/-- The rounds of the walk along the parents never run out. -/
lemma follow_structParent_add (t : NodeHandle) (more : Nat) :
    Walk.follow (fun t => (s.structParent? t).bind s.struct?) (s.extent + 1 + more) (s.struct? t) [] =
      s.structLine t :=
  Walk.follow_there_of_le (fun _ _ => mem_struct?_iff) (fun _ _ => structParent?_mem_linked)
    (s.length_cons_linked_lt t) (Nat.le_add_right _ _)

/-- However superclasses and parents are linked, the walks along them end, and what they list is what one
comes to.  They report a circle if and only if one comes to it. -/
theorem lines_follow_links (s : Store) (h : NodeHandle) :
    (∀ more, Walk.follow (fun c => (s.superclass? c).bind s.live?) (s.extent + 1 + more) (s.live? h) [] =
        s.classLine h) ∧
      (∀ more, Walk.follow (fun t => (s.structParent? t).bind s.struct?) (s.extent + 1 + more)
          (s.struct? h) [] = s.structLine h) ∧
      Walk.IsLine (fun c => s.contains c = true) s.superclass? h (s.classLine h) ∧
      Walk.IsLine (fun t => ∃ parent, s.shape? t = some (.struct parent)) s.structParent? h
        (s.structLine h) ∧
      (s.hasInheritanceCycle h = true ↔ Walk.Revisits s.superclass? h) ∧
      (s.structHasCycle h = true ↔ Walk.Revisits s.structParent? h) :=
  ⟨follow_superclass_add h, follow_structParent_add h, isLine_classLine s h, isLine_structLine s h,
    hasInheritanceCycle_iff, structHasCycle_iff⟩

end Store

end Semdoc
