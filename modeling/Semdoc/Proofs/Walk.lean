import Mathlib.Data.List.Chain
import Mathlib.Data.List.Nodup
import Mathlib.Data.List.Perm.Subperm
import Mathlib.Logic.Relation
import Mathlib.Tactic.Lemma
import Semdoc.Walk

/-!
# Walks find everything

A walk that has enough rounds ends with a collection that contains all that was to be visited, and all
that is linked to from something in it.  It contains nothing else, and nothing twice.  Where a walk puts
what it finds among what is still to be visited makes no difference to this.  It makes the order, which is
told without rounds: that of a queue that is worked off, or that of exploring.
-/

namespace Semdoc.Walk

variable {α : Type u} [BEq α] [LawfulBEq α]

lemma mem_unseen {work seen : List α} {x : α} :
    x ∈ work.filter (fun x => !seen.contains x) ↔ x ∈ work ∧ x ∉ seen := by
  simp

/-- A walk that puts what a thing links to somewhere among the rest of what is to be visited. -/
def visit (join : List α → List α → List α) (next : α → List α) : Nat → List α → List α → List α
  | 0, _, seen => seen.reverse
  | rounds + 1, work, seen =>
    match work.filter fun x => !seen.contains x with
    | [] => seen.reverse
    | x :: rest => visit join next rounds (join (next x) rest) (x :: seen)

omit [LawfulBEq α] in
lemma depthFirst_eq_visit (next : α → List α) (rounds : Nat) (work seen : List α) :
    depthFirst next rounds work seen = visit (fun new rest => new ++ rest) next rounds work seen := by
  fun_induction depthFirst next rounds work seen with
  | case1 => rfl
  | case2 _ _ _ hf => rw [visit, hf]
  | case3 _ _ _ _ _ hf ih => rw [visit, hf, ih]

omit [LawfulBEq α] in
lemma breadthFirst_eq_visit (next : α → List α) (rounds : Nat) (work seen : List α) :
    breadthFirst next rounds work seen = visit (fun new rest => rest ++ new) next rounds work seen := by
  fun_induction breadthFirst next rounds work seen with
  | case1 => rfl
  | case2 _ _ _ hf => rw [visit, hf]
  | case3 _ _ _ _ _ hf ih => rw [visit, hf, ih]

section Visit

variable {join : List α → List α → List α}
  (hjoin : ∀ new rest x, x ∈ join new rest ↔ x ∈ new ∨ x ∈ rest)

include hjoin in
/-- What is collected contains what was to be visited and is closed under links, if the rounds exceed
what is left of a collection that contains everything which can be met. -/
lemma visit_closed {next : α → List α} {all : List α} (hnext : ∀ x ∈ all, next x ⊆ all) :
    ∀ {rounds : Nat} {work seen : List α}, work ⊆ all → seen ⊆ all → seen.Nodup →
      all.length < seen.length + rounds → (∀ x ∈ seen, next x ⊆ seen ++ work) →
      work ⊆ visit join next rounds work seen ∧ seen ⊆ visit join next rounds work seen ∧
        ∀ x ∈ visit join next rounds work seen, next x ⊆ visit join next rounds work seen := by
  intro rounds
  induction rounds with
  | zero =>
    intro work seen _ hseen hd hlen _
    have hle := (List.subperm_of_subset hd hseen).length_le
    omega
  | succ rounds ih =>
    intro work seen hwork hseen hd hlen hlinks
    rw [visit]
    cases hf : work.filter fun x => !seen.contains x with
    | nil =>
      -- nothing is left that has not been seen
      have hin : work ⊆ seen := by
        intro x hx
        by_contra hn
        have hx' := mem_unseen.2 ⟨hx, hn⟩
        rw [hf] at hx'
        cases hx'
      have hrev : ∀ l : List α, l ⊆ seen → l ⊆ seen.reverse :=
        fun l hl x hx => List.mem_reverse.2 (hl hx)
      refine ⟨hrev work hin, hrev seen fun _ => id, fun x hx => hrev _ fun y hy => ?_⟩
      rcases List.mem_append.1 (hlinks x (List.mem_reverse.1 hx) hy) with hy | hy
      · exact hy
      · exact hin hy
    | cons x rest =>
      have hmem : ∀ y, y ∈ x :: rest ↔ y ∈ work ∧ y ∉ seen := fun y => hf ▸ mem_unseen
      have hx := (hmem x).1 List.mem_cons_self
      -- the next item is collected, and what it leads to goes before the rest
      have hsplit : ∀ y ∈ work, y ∈ join (next x) rest ∨ y ∈ x :: seen := by
        intro y hy
        by_cases hys : y ∈ seen
        · exact .inr (List.mem_cons_of_mem x hys)
        · rcases List.mem_cons.1 ((hmem y).2 ⟨hy, hys⟩) with rfl | hr
          · exact .inr List.mem_cons_self
          · exact .inl ((hjoin _ _ _).2 (.inr hr))
      have hwork' : join (next x) rest ⊆ all := by
        intro y hy
        rcases (hjoin _ _ _).1 hy with hy | hy
        · exact hnext x (hwork hx.1) hy
        · exact hwork ((hmem y).1 (List.mem_cons_of_mem x hy)).1
      have hlinks' : ∀ y ∈ x :: seen, next y ⊆ (x :: seen) ++ join (next x) rest := by
        intro y hy z hz
        rw [List.mem_append]
        rcases List.mem_cons.1 hy with rfl | hy
        · exact .inr ((hjoin _ _ _).2 (.inl hz))
        · rcases List.mem_append.1 (hlinks y hy hz) with hz | hz
          · exact .inl (List.mem_cons_of_mem x hz)
          · exact (hsplit z hz).symm
      have hlen' : all.length < (x :: seen).length + rounds := by
        rw [List.length_cons]
        omega
      obtain ⟨h1, h2, h3⟩ := ih hwork' (List.cons_subset.2 ⟨hwork hx.1, hseen⟩)
        (List.nodup_cons.2 ⟨hx.2, hd⟩) hlen' hlinks'
      refine ⟨fun y hy => ?_, fun y hy => h2 (List.mem_cons_of_mem x hy), h3⟩
      exact (hsplit y hy).elim (fun h => h1 h) fun h => h2 h

include hjoin in
/-- What holds of all that is to be visited and goes on along links holds of all that is collected. -/
lemma forall_mem_visit {next : α → List α} {P : α → Prop}
    (hnext : ∀ x, P x → ∀ y ∈ next x, P y) {rounds : Nat} {work seen : List α}
    (hwork : ∀ x ∈ work, P x) (hseen : ∀ x ∈ seen, P x) :
    ∀ x ∈ visit join next rounds work seen, P x := by
  fun_induction visit join next rounds work seen with
  | case1 work seen => exact fun x hx => hseen x (List.mem_reverse.1 hx)
  | case2 _ _ seen _ => exact fun x hx => hseen x (List.mem_reverse.1 hx)
  | case3 rounds work seen x rest hf ih =>
    have hmem : ∀ y ∈ x :: rest, P y := fun y hy => hwork y (mem_unseen.1 (hf ▸ hy)).1
    obtain ⟨hx, hrest⟩ := List.forall_mem_cons.1 hmem
    have hwork' : ∀ y ∈ join (next x) rest, P y :=
      fun y hy => ((hjoin _ _ _).1 hy).elim (hnext x hx y) (hrest y)
    exact ih hwork' (List.forall_mem_cons.2 ⟨hx, hseen⟩)

include hjoin in
/-- A walk that begins with nothing collected collects what one comes to. -/
lemma mem_visit_iff {next : α → List α} {all : List α} (hnext : ∀ x ∈ all, next x ⊆ all)
    {rounds : Nat} {work : List α} (hwork : work ⊆ all) (hlen : all.length < rounds) {y : α} :
    y ∈ visit join next rounds work [] ↔
      ∃ x ∈ work, Relation.ReflTransGen (fun a b => b ∈ next a) x y := by
  constructor
  · have hgoes : ∀ y, (∃ x ∈ work, Relation.ReflTransGen (fun a b => b ∈ next a) x y) →
        ∀ z ∈ next y, ∃ x ∈ work, Relation.ReflTransGen (fun a b => b ∈ next a) x z :=
      fun y ⟨x, hx, hxy⟩ z hz => ⟨x, hx, hxy.tail hz⟩
    exact forall_mem_visit hjoin hgoes (fun x hx => ⟨x, hx, .refl⟩) (List.forall_mem_nil _) y
  · rintro ⟨x, hx, hxy⟩
    have hclosed := visit_closed hjoin hnext hwork (List.nil_subset _) List.nodup_nil
      (by simpa using hlen) (List.forall_mem_nil _)
    induction hxy with
    | refl => exact hclosed.1 hx
    | tail _ hz ih => exact hclosed.2.2 _ ih hz

/-- Nothing is collected twice. -/
lemma nodup_visit {next : α → List α} {rounds : Nat} {work seen : List α}
    (hseen : seen.Nodup) : (visit join next rounds work seen).Nodup := by
  fun_induction visit join next rounds work seen with
  | case1 work seen => exact List.nodup_reverse.2 hseen
  | case2 _ _ seen _ => exact List.nodup_reverse.2 hseen
  | case3 rounds work seen x rest hf ih =>
    have hx : x ∈ work.filter fun x => !seen.contains x := hf ▸ List.mem_cons_self
    exact ih (List.nodup_cons.2 ⟨(mem_unseen.1 hx).2, hseen⟩)

include hjoin in
/-- Rounds beyond those that are enough change nothing. -/
lemma visit_of_le {next : α → List α} {all : List α} (hnext : ∀ x ∈ all, next x ⊆ all)
    {rounds more : Nat} {work seen : List α} (hwork : work ⊆ all) (hseen : seen ⊆ all)
    (hd : seen.Nodup) (hlen : all.length < seen.length + rounds) (hle : rounds ≤ more) :
    visit join next more work seen = visit join next rounds work seen := by
  fun_induction visit join next rounds work seen generalizing more with
  | case1 work seen =>
    have h := (List.subperm_of_subset hd hseen).length_le
    omega
  | case2 rounds work seen hf =>
    obtain ⟨more, rfl⟩ := Nat.exists_eq_add_of_lt hle
    rw [visit, hf]
  | case3 rounds work seen x rest hf ih =>
    obtain ⟨more, rfl⟩ := Nat.exists_eq_add_of_lt hle
    have hmem : x :: rest ⊆ all := fun y hy => hwork (mem_unseen.1 (hf ▸ hy)).1
    obtain ⟨hx, hrest⟩ := List.cons_subset.1 hmem
    have hx' : x ∈ work.filter fun x => !seen.contains x := hf ▸ List.mem_cons_self
    have hwork' : join (next x) rest ⊆ all :=
      fun y hy => ((hjoin _ _ _).1 hy).elim (fun h => hnext x hx h) fun h => hrest h
    rw [visit, hf]
    refine ih hwork' (List.cons_subset.2 ⟨hx, hseen⟩)
      (List.nodup_cons.2 ⟨(mem_unseen.1 hx').2, hd⟩) ?_ (Nat.le_add_right _ _)
    rw [List.length_cons]
    omega

end Visit

/-! ## Both kinds of walks -/

section Walks

variable {next : α → List α} {all work seen : List α} {rounds : Nat}

lemma depthFirst_closed (hnext : ∀ x ∈ all, next x ⊆ all) (hwork : work ⊆ all) (hseen : seen ⊆ all)
    (hd : seen.Nodup) (hlen : all.length < seen.length + rounds)
    (hlinks : ∀ x ∈ seen, next x ⊆ seen ++ work) :
    work ⊆ depthFirst next rounds work seen ∧ seen ⊆ depthFirst next rounds work seen ∧
      ∀ x ∈ depthFirst next rounds work seen, next x ⊆ depthFirst next rounds work seen := by
  rw [depthFirst_eq_visit]
  exact visit_closed (fun _ _ _ => List.mem_append) hnext hwork hseen hd hlen hlinks

lemma breadthFirst_closed (hnext : ∀ x ∈ all, next x ⊆ all) (hwork : work ⊆ all)
    (hseen : seen ⊆ all) (hd : seen.Nodup) (hlen : all.length < seen.length + rounds)
    (hlinks : ∀ x ∈ seen, next x ⊆ seen ++ work) :
    work ⊆ breadthFirst next rounds work seen ∧ seen ⊆ breadthFirst next rounds work seen ∧
      ∀ x ∈ breadthFirst next rounds work seen, next x ⊆ breadthFirst next rounds work seen := by
  rw [breadthFirst_eq_visit]
  exact visit_closed (fun _ _ _ => List.mem_append.trans or_comm) hnext hwork hseen hd hlen hlinks

lemma forall_mem_depthFirst {P : α → Prop} (hnext : ∀ x, P x → ∀ y ∈ next x, P y)
    (hwork : ∀ x ∈ work, P x) (hseen : ∀ x ∈ seen, P x) :
    ∀ x ∈ depthFirst next rounds work seen, P x := by
  rw [depthFirst_eq_visit]
  exact forall_mem_visit (fun _ _ _ => List.mem_append) hnext hwork hseen

lemma mem_depthFirst_iff (hnext : ∀ x ∈ all, next x ⊆ all) (hwork : work ⊆ all)
    (hlen : all.length < rounds) {y : α} : y ∈ depthFirst next rounds work [] ↔
      ∃ x ∈ work, Relation.ReflTransGen (fun a b => b ∈ next a) x y := by
  rw [depthFirst_eq_visit]
  exact mem_visit_iff (fun _ _ _ => List.mem_append) hnext hwork hlen

lemma mem_breadthFirst_iff (hnext : ∀ x ∈ all, next x ⊆ all) (hwork : work ⊆ all)
    (hlen : all.length < rounds) {y : α} : y ∈ breadthFirst next rounds work [] ↔
      ∃ x ∈ work, Relation.ReflTransGen (fun a b => b ∈ next a) x y := by
  rw [breadthFirst_eq_visit]
  exact mem_visit_iff (fun _ _ _ => List.mem_append.trans or_comm) hnext hwork hlen

lemma nodup_depthFirst (hseen : seen.Nodup) : (depthFirst next rounds work seen).Nodup := by
  rw [depthFirst_eq_visit]
  exact nodup_visit hseen

lemma nodup_breadthFirst (hseen : seen.Nodup) : (breadthFirst next rounds work seen).Nodup := by
  rw [breadthFirst_eq_visit]
  exact nodup_visit hseen

lemma depthFirst_of_le (hnext : ∀ x ∈ all, next x ⊆ all) {more : Nat} (hwork : work ⊆ all)
    (hseen : seen ⊆ all) (hd : seen.Nodup) (hlen : all.length < seen.length + rounds)
    (hle : rounds ≤ more) :
    depthFirst next more work seen = depthFirst next rounds work seen := by
  rw [depthFirst_eq_visit, depthFirst_eq_visit]
  exact visit_of_le (fun _ _ _ => List.mem_append) hnext hwork hseen hd hlen hle

lemma breadthFirst_of_le (hnext : ∀ x ∈ all, next x ⊆ all) {more : Nat} (hwork : work ⊆ all)
    (hseen : seen ⊆ all) (hd : seen.Nodup) (hlen : all.length < seen.length + rounds)
    (hle : rounds ≤ more) :
    breadthFirst next more work seen = breadthFirst next rounds work seen := by
  rw [breadthFirst_eq_visit, breadthFirst_eq_visit]
  exact visit_of_le (fun _ _ _ => List.mem_append.trans or_comm) hnext hwork hseen hd hlen hle

end Walks

/-! ## Working off a queue -/

/-- A queue is worked off: what has been met is skipped, and what anything else links to is put at the end. -/
inductive Drains (next : α → List α) : List α → List α → List α → Prop
  | done {met : List α} : Drains next [] met met
  | skip {x : α} {work met all : List α} (hx : x ∈ met) (h : Drains next work met all) :
      Drains next (x :: work) met all
  | visit {x : α} {work met all : List α} (hx : x ∉ met)
      (h : Drains next (work ++ next x) (met ++ [x]) all) : Drains next (x :: work) met all

namespace Drains

variable {next : α → List α} {work met all all' : List α}

omit [BEq α] [LawfulBEq α] in
lemma unique (h : Drains next work met all) (h' : Drains next work met all') : all = all' := by
  induction h with
  | done =>
    cases h'
    rfl
  | skip hx _ ih =>
    cases h' with
    | skip _ h' => exact ih h'
    | visit hx' _ => exact (hx' hx).elim
  | visit hx _ ih =>
    cases h' with
    | skip hx' _ => exact (hx hx').elim
    | visit _ h' => exact ih h'

omit [BEq α] [LawfulBEq α] in
lemma skip_append {before : List α} (hb : before ⊆ met) (h : Drains next work met all) :
    Drains next (before ++ work) met all := by
  induction before with
  | nil => exact h
  | cons x before ih =>
    obtain ⟨hx, hb⟩ := List.cons_subset.1 hb
    exact .skip hx (ih hb)

omit [BEq α] [LawfulBEq α] in
/-- What has been met stays, and what comes next at the head of the queue is put behind it. -/
lemma starts_with {before : List α} (h : Drains next (before ++ work) met all)
    (hd : (met ++ before).Nodup) : met ++ before <+: all := by
  generalize hq : before ++ work = queue at h
  induction h generalizing before work with
  | done =>
    obtain ⟨rfl, -⟩ := List.append_eq_nil_iff.1 hq
    exact ⟨[], by simp⟩
  | @skip x queue met all hx _ ih =>
    cases before with
    | nil => exact ih hd rfl
    | cons y before =>
      obtain ⟨rfl, -⟩ := List.cons_eq_cons.1 hq
      exact ((List.nodup_append'.1 hd).2.2 hx List.mem_cons_self).elim
  | @visit x queue met all hx _ ih =>
    cases before with
    | nil =>
      have hd' : (met ++ [x] ++ []).Nodup := by
        simpa [List.nodup_append', hx] using hd
      have h := ih hd' (List.nil_append _)
      rw [List.append_nil] at h ⊢
      exact (List.prefix_append met [x]).trans h
    | cons y before =>
      obtain ⟨rfl, rfl⟩ := List.cons_eq_cons.1 hq
      have hd' : (met ++ [y] ++ before).Nodup := by
        rwa [List.append_assoc, List.singleton_append]
      have h := ih hd' (List.append_assoc before work (next y)).symm
      rwa [List.append_assoc, List.singleton_append] at h

end Drains

section

variable {next : α → List α} {all work work' seen : List α} {rounds : Nat}

omit [LawfulBEq α] in
/-- What has been seen makes no difference in what is to be visited. -/
lemma breadthFirst_congr (h : (work.filter fun x => !seen.contains x) =
    work'.filter fun x => !seen.contains x) :
    breadthFirst next rounds work seen = breadthFirst next rounds work' seen := by
  cases rounds with
  | zero => rfl
  | succ rounds => rw [breadthFirst, breadthFirst, h]

/-- With enough rounds a walk works off its queue. -/
lemma drains_breadthFirst (hnext : ∀ x ∈ all, next x ⊆ all) (hwork : work ⊆ all)
    (hseen : seen ⊆ all) (hd : seen.Nodup) (hlen : all.length < seen.length + rounds) :
    Drains next work seen.reverse (breadthFirst next rounds work seen) := by
  induction rounds generalizing work seen with
  | zero =>
    have h := (List.subperm_of_subset hd hseen).length_le
    omega
  | succ rounds ih =>
    rw [breadthFirst]
    split
    · next hf =>
      have hsub : work ⊆ seen.reverse := fun x hx => by
        simpa using List.filter_eq_nil_iff.1 hf x hx
      simpa using Drains.skip_append hsub .done
    · next x rest hf =>
      obtain ⟨before, after, rfl, hbefore, hx, rfl⟩ := List.filter_eq_cons_iff.1 hf
      have hx : x ∉ seen := by simpa using hx
      have hxall : x ∈ all := hwork (by simp)
      have hafter : after ⊆ all := fun y hy => hwork (by simp [hy])
      refine .skip_append (fun y hy => by simpa using hbefore y hy) (.visit (by simpa using hx) ?_)
      have h := ih (List.append_subset.2 ⟨hafter, hnext x hxall⟩)
        (List.cons_subset.2 ⟨hxall, hseen⟩) (List.nodup_cons.2 ⟨hx, hd⟩)
        (by rw [List.length_cons]; omega)
      have hsame : breadthFirst next rounds ((after.filter fun y => !seen.contains y) ++ next x)
          (x :: seen) = breadthFirst next rounds (after ++ next x) (x :: seen) := by
        refine breadthFirst_congr ?_
        rw [List.filter_append, List.filter_append, List.filter_filter]
        congr 1
        refine List.filter_congr fun y _ => ?_
        simp
      rwa [List.reverse_cons, ← hsame] at h

end

/-! ## Exploring in order -/

/-- Things are explored one after the other, each before all that it links to and that before the
things which follow.  What has been met is passed over. -/
inductive Explores (next : α → List α) : List α → List α → List α → Prop
  | done {met : List α} : Explores next [] met met
  | skip {x : α} {work met all : List α} (hx : x ∈ met) (h : Explores next work met all) :
      Explores next (x :: work) met all
  | visit {x : α} {work met between all : List α} (hx : x ∉ met)
      (hbelow : Explores next (next x) (met ++ [x]) between) (h : Explores next work between all) :
      Explores next (x :: work) met all

namespace Explores

variable {next : α → List α} {work work' met all all' : List α}

omit [BEq α] [LawfulBEq α] in
lemma unique (h : Explores next work met all) (h' : Explores next work met all') : all = all' := by
  induction h generalizing all' with
  | done =>
    cases h'
    rfl
  | skip hx _ ih =>
    cases h' with
    | skip _ h' => exact ih h'
    | visit hx' _ _ => exact (hx' hx).elim
  | visit hx _ _ ihbelow ih =>
    cases h' with
    | skip hx' _ => exact (hx hx').elim
    | visit _ hbelow' h' =>
      cases ihbelow hbelow'
      exact ih h'

omit [BEq α] [LawfulBEq α] in
/-- What has been met stays. -/
lemma subset (h : Explores next work met all) : met ⊆ all := by
  induction h with
  | done => exact fun _ => id
  | skip _ _ ih => exact ih
  | visit _ _ _ ihbelow ih => exact fun y hy => ih (ihbelow (List.mem_append_left _ hy))

omit [BEq α] [LawfulBEq α] in
/-- What comes first is explored first. -/
lemma of_append (h : Explores next (work ++ work') met all) :
    ∃ between, Explores next work met between ∧ Explores next work' between all := by
  induction work generalizing met with
  | nil => exact ⟨met, .done, h⟩
  | cons x work ih =>
    cases h with
    | skip hx h =>
      obtain ⟨between, h, h'⟩ := ih h
      exact ⟨between, .skip hx h, h'⟩
    | visit hx hbelow h =>
      obtain ⟨between, h, h'⟩ := ih h
      exact ⟨between, .visit hx hbelow h, h'⟩

omit [BEq α] [LawfulBEq α] in
/-- It makes no difference if some of what has been met is left out. -/
lemma of_filter {p : α → Bool} (hp : ∀ y, p y = false → y ∈ met)
    (h : Explores next (work.filter p) met all) : Explores next work met all := by
  induction work generalizing met with
  | nil => exact h
  | cons y work ih =>
    cases hy : p y with
    | false =>
      rw [List.filter_cons_of_neg (by simp [hy])] at h
      exact .skip (hp y hy) (ih hp h)
    | true =>
      rw [List.filter_cons_of_pos hy] at h
      cases h with
      | skip hm h => exact .skip hm (ih hp h)
      | visit hm hbelow h =>
        exact .visit hm hbelow
          (ih (fun z hz => hbelow.subset (List.mem_append_left _ (hp z hz))) h)

end Explores

/-- With enough rounds a walk that goes on with what a thing links to explores everything. -/
lemma explores_depthFirst {next : α → List α} {all work seen : List α} {rounds : Nat}
    (hnext : ∀ x ∈ all, next x ⊆ all) (hwork : work ⊆ all) (hseen : seen ⊆ all) (hd : seen.Nodup)
    (hlen : all.length < seen.length + rounds) :
    Explores next work seen.reverse (depthFirst next rounds work seen) := by
  induction rounds generalizing work seen with
  | zero =>
    have h := (List.subperm_of_subset hd hseen).length_le
    omega
  | succ rounds ih =>
    refine .of_filter (p := fun y => !seen.contains y) (by simp) ?_
    rw [depthFirst]
    split
    · next hf =>
      rw [hf]
      exact .done
    · next x rest hf =>
      have hmem : x :: rest ⊆ all := fun y hy => hwork (mem_unseen.1 (hf ▸ hy)).1
      obtain ⟨hx, hrest⟩ := List.cons_subset.1 hmem
      have hnew : x ∉ seen := (mem_unseen.1 (hf ▸ List.mem_cons_self)).2
      have h : Explores next (next x ++ rest) (x :: seen).reverse
          (depthFirst next rounds (next x ++ rest) (x :: seen)) :=
        ih (List.append_subset.2 ⟨hnext x hx, hrest⟩) (List.cons_subset.2 ⟨hx, hseen⟩)
          (List.nodup_cons.2 ⟨hnew, hd⟩) (by rw [List.length_cons]; omega)
      rw [List.reverse_cons] at h
      obtain ⟨between, hbelow, h⟩ := h.of_append
      rw [hf]
      exact .visit (by simpa using hnew) hbelow h

/-! ## Single links -/

lemma follow_of_le {next : α → Option α} (all : List α) (hnext : ∀ x, ∀ y ∈ next x, y ∈ all)
    {rounds more : Nat} {start : Option α} {seen : List α} (hstart : ∀ x ∈ start, x ∈ all)
    (hseen : seen ⊆ all) (hd : seen.Nodup) (hlen : all.length < seen.length + rounds)
    (hle : rounds ≤ more) : follow next more start seen = follow next rounds start seen := by
  fun_induction follow next rounds start seen generalizing more with
  | case1 start seen =>
    have h := (List.subperm_of_subset hd hseen).length_le
    omega
  | case2 rounds seen =>
    cases more <;> rfl
  | case3 rounds x seen hx =>
    obtain ⟨more, rfl⟩ := Nat.exists_eq_add_of_lt hle
    rw [follow, if_pos hx]
  | case4 rounds x seen hx ih =>
    obtain ⟨more, rfl⟩ := Nat.exists_eq_add_of_lt hle
    have hx' : x ∉ seen := by simpa using hx
    rw [follow, if_neg hx]
    refine ih (hnext x) (List.cons_subset.2 ⟨hstart x rfl, hseen⟩)
      (List.nodup_cons.2 ⟨hx', hd⟩) ?_ (Nat.le_add_right _ _)
    rw [List.length_cons]
    omega

/-- Following single links one meets all that they lead to, if the rounds exceed what is left of a
collection of all that can be met.  What has been seen is closed under links but for the start. -/
lemma mem_follow_iff {next : α → Option α} (all : List α) (hnext : ∀ x, ∀ y ∈ next x, y ∈ all)
    {rounds : Nat} {start : Option α} {seen : List α} (hstart : ∀ x ∈ start, x ∈ all)
    (hseen : seen ⊆ all) (hd : seen.Nodup) (hlen : all.length < seen.length + rounds)
    (hlinks : ∀ x ∈ seen, ∀ y ∈ next x, y ∈ seen ∨ y ∈ start) {y : α} :
    y ∈ follow next rounds start seen ↔
      y ∈ seen ∨ ∃ x ∈ start, Relation.ReflTransGen (fun a b => b ∈ next a) x y := by
  fun_induction follow next rounds start seen with
  | case1 start seen =>
    have h := (List.subperm_of_subset hd hseen).length_le
    omega
  | case2 rounds seen =>
    rw [List.mem_reverse]
    exact ⟨.inl, fun h => h.resolve_right nofun⟩
  | case3 rounds x seen hx =>
    have hx' : x ∈ seen := by simpa using hx
    rw [List.mem_reverse]
    refine ⟨.inl, ?_⟩
    rintro (hy | ⟨z, hz, hy⟩)
    · exact hy
    obtain rfl := Option.mem_some_iff.1 hz
    -- nothing leads out of what has been seen
    induction hy with
    | refl => exact hx'
    | @tail b c _ hbc ih =>
      rcases hlinks b ih c hbc with hc | hc
      · exact hc
      · rwa [← Option.mem_some_iff.1 hc]
  | case4 rounds x seen hx ih =>
    have hx' : x ∉ seen := by simpa using hx
    rw [ih (hnext x) (List.cons_subset.2 ⟨hstart x rfl, hseen⟩) (List.nodup_cons.2 ⟨hx', hd⟩)
      (by rw [List.length_cons]; omega) ?_]
    · simp only [List.mem_cons, Option.mem_some_iff, exists_eq_left']
      rw [Relation.ReflTransGen.cases_head_iff]
      constructor
      · rintro ((rfl | hy) | hy)
        · exact .inr (.inl rfl)
        · exact .inl hy
        · exact .inr (.inr hy)
      · rintro (hy | rfl | hy)
        · exact .inl (.inr hy)
        · exact .inl (.inl rfl)
        · exact .inr hy
    · intro z hz w hw
      rcases List.mem_cons.1 hz with rfl | hz
      · exact .inr hw
      · rcases hlinks z hz w hw with h | h
        · exact .inl (List.mem_cons_of_mem x h)
        · rw [Option.mem_some_iff.1 h]
          exact .inl List.mem_cons_self

omit [LawfulBEq α] in
lemma seen_prefix_follow {next : α → Option α} {rounds : Nat} {start : Option α} {seen : List α} :
    seen.reverse <+: follow next rounds start seen := by
  fun_induction follow next rounds start seen with
  | case1 => exact List.prefix_rfl
  | case2 => exact List.prefix_rfl
  | case3 => exact List.prefix_rfl
  | case4 rounds x seen _ ih =>
    rw [List.reverse_cons] at ih
    exact (List.prefix_append seen.reverse [x]).trans ih

omit [LawfulBEq α] in
lemma head?_follow {next : α → Option α} {rounds : Nat} {start : Option α} :
    (follow next (rounds + 1) start []).head? = start := by
  cases start with
  | none => rfl
  | some x =>
    have h : [x].reverse <+: follow next rounds (next x) [x] := seen_prefix_follow
    obtain ⟨rest, hrest⟩ := h
    rw [follow, if_neg (by simp), ← hrest]
    rfl

lemma nodup_follow {next : α → Option α} {rounds : Nat} {start : Option α} {seen : List α}
    (hseen : seen.Nodup) : (follow next rounds start seen).Nodup := by
  fun_induction follow next rounds start seen with
  | case1 => exact List.nodup_reverse.2 hseen
  | case2 => exact List.nodup_reverse.2 hseen
  | case3 => exact List.nodup_reverse.2 hseen
  | case4 rounds x seen hx ih => exact ih (List.nodup_cons.2 ⟨by simpa using hx, hseen⟩)

omit [LawfulBEq α] in
/-- What is met next is what the last thing that has been seen links to. -/
lemma isChain_follow {next : α → Option α} {rounds : Nat} {start : Option α} {seen : List α}
    (h : (seen.reverse ++ start.toList).IsChain fun x y => next x = some y) :
    (follow next rounds start seen).IsChain fun x y => next x = some y := by
  fun_induction follow next rounds start seen with
  | case1 start seen => exact (List.isChain_append.1 h).1
  | case2 rounds seen => exact (List.isChain_append.1 h).1
  | case3 rounds x seen _ => exact (List.isChain_append.1 h).1
  | case4 rounds x seen _ ih =>
    refine ih ?_
    rw [List.reverse_cons]
    refine List.isChain_append.2 ⟨h, ?_, ?_⟩
    · cases next x <;> simp
    · simp

/-! ## Lines -/

section Line

open Relation

/-- What one comes to from a start along single links, in this order, as far as it is there and before
anything is repeated. -/
structure IsLine (There : α → Prop) (link : α → Option α) (start : α) (line : List α) : Prop where
  head : ∀ x, line.head? = some x ↔ start = x ∧ There start
  linked : line.IsChain fun x y => link x = some y
  nodup : line.Nodup
  there : ∀ x ∈ line, There x
  stops : ∀ x, line.getLast? = some x → ∀ y, link x = some y → There y → y ∈ line

/-- Along single links one comes from a start to something that one comes back to. -/
def Revisits (link : α → Option α) (start : α) : Prop :=
  ∃ x, ReflTransGen (fun a b => link a = some b) start x ∧
    TransGen (fun a b => link a = some b) x x

variable {There : α → Prop} {link : α → Option α} {start x y : α} {line : List α}

namespace IsLine

variable (h : IsLine There link start line)

include h

omit [BEq α] [LawfulBEq α]

/-- Whatever is on the line, the line goes on to what it links to. -/
lemma closed (hx : x ∈ line) (hxy : link x = some y) (hy : There y) : y ∈ line := by
  obtain ⟨a, b, rfl⟩ := List.append_of_mem hx
  cases b with
  | nil => exact h.stops x List.getLast?_concat y hxy hy
  | cons z b =>
    have hxz : link x = some z := by
      have hchain := (List.isChain_append.1 h.linked).2.1
      exact (List.isChain_cons_cons.1 hchain).1
    obtain rfl := Option.some.inj (hxy.symm.trans hxz)
    simp

lemma reaches (hx : x ∈ line) : ReflTransGen (fun a b => link a = some b) start x := by
  obtain ⟨a, b, rfl⟩ := List.append_of_mem hx
  have hchain : (a ++ [x]).IsChain fun a b => link a = some b := by
    have hlinked := h.linked
    rw [List.append_cons] at hlinked
    exact (List.isChain_append.1 hlinked).1
  have hne : a ++ [x] ≠ [] := List.append_ne_nil_of_right_ne_nil a (List.cons_ne_nil x [])
  have hhead : start = (a ++ [x]).head hne := by
    refine ((h.head _).1 ?_).1
    rw [List.append_cons, List.head?_append, List.head?_eq_some_head hne]
    rfl
  simpa [← hhead] using List.relationReflTransGen_of_exists_isChain _ hchain hne

lemma reaches_last (hx : x ∈ line) (hy : line.getLast? = some y) :
    ReflTransGen (fun a b => link a = some b) x y := by
  obtain ⟨a, b, rfl⟩ := List.append_of_mem hx
  refine List.relationReflTransGen_of_exists_isChain_cons b (List.isChain_append.1 h.linked).2.1 ?_
  rw [List.getLast?_append_of_ne_nil a (List.cons_ne_nil x b),
    List.getLast?_eq_some_getLast (List.cons_ne_nil x b)] at hy
  exact Option.some.inj hy

end IsLine

omit [BEq α] [LawfulBEq α] in
/-- All that one comes to on the way to a circle, and on the circle, leads to the circle. -/
lemma transGen_of_reaches (hx : ReflTransGen (fun a b => link a = some b) start x)
    (hcircle : TransGen (fun a b => link a = some b) x x)
    (hy : ReflTransGen (fun a b => link a = some b) start y) :
    TransGen (fun a b => link a = some b) y x := by
  induction hy with
  | refl => exact TransGen.trans_right hx hcircle
  | tail _ hyz ih =>
    obtain ⟨w, hw, hback⟩ := TransGen.head'_iff.1 ih
    obtain rfl := Option.some.inj (hw.symm.trans hyz)
    exact TransGen.trans_right hback hcircle

/-- The last thing of a line links to one of the line if and only if there is a circle on the way. -/
lemma IsLine.revisits_iff (h : IsLine There link start line)
    (hlink : ∀ x y, link x = some y → There x) :
    ((line.getLast?.bind link).map line.contains).getD false = true ↔ Revisits link start := by
  constructor
  · intro hback
    cases hlast : line.getLast? with
    | none =>
      rw [hlast] at hback
      cases hback
    | some x =>
      cases hxy : link x with
      | none =>
        rw [hlast, Option.bind_some, hxy] at hback
        cases hback
      | some y =>
        rw [hlast, Option.bind_some, hxy] at hback
        have hy : y ∈ line := List.contains_iff_mem.1 hback
        exact ⟨y, h.reaches hy, TransGen.tail' (h.reaches_last hy hlast) hxy⟩
  · rintro ⟨y, hy, hcircle⟩
    have hthere : ∀ {a}, TransGen (fun a b => link a = some b) a y → There a := by
      intro a ha
      obtain ⟨b, hab, -⟩ := TransGen.head'_iff.1 ha
      exact hlink a b hab
    have hstart : start ∈ line :=
      List.mem_of_mem_head? ((h.head start).2 ⟨rfl, hthere (transGen_of_reaches hy hcircle .refl)⟩)
    obtain ⟨x, hlast⟩ : ∃ x, line.getLast? = some x :=
      ⟨_, List.getLast?_eq_some_getLast (List.ne_nil_of_mem hstart)⟩
    have hx := h.reaches (List.mem_of_getLast? hlast)
    obtain ⟨z, hxz, -⟩ := TransGen.head'_iff.1 (transGen_of_reaches hy hcircle hx)
    have hz : There z := hthere (transGen_of_reaches hy hcircle (hx.tail hxz))
    rw [hlast, Option.bind_some, hxz]
    exact List.contains_iff_mem.2 (h.stops x hlast z hxz hz)

/-! ### Links to what is there -/

section There

variable {there? : α → Option α} {all : List α} {rounds more : Nat}
  (hthere : ∀ x y, y ∈ there? x ↔ x = y ∧ There x)

include hthere

omit [BEq α] [LawfulBEq α] in
lemma mem_bind_iff : y ∈ (link x).bind there? ↔ link x = some y ∧ There y := by
  rw [Option.mem_def, Option.bind_eq_some_iff]
  constructor
  · rintro ⟨z, hz, hy⟩
    obtain ⟨rfl, hzt⟩ := (hthere z y).1 hy
    exact ⟨hz, hzt⟩
  · exact fun ⟨hy, hyt⟩ => ⟨y, hy, (hthere y y).2 ⟨rfl, hyt⟩⟩

omit [BEq α] [LawfulBEq α] in
lemma mem_cons_of_mem_there? (hx : x ∈ there? start) : x ∈ start :: all := by
  rw [← ((hthere start x).1 hx).1]
  exact List.mem_cons_self

variable (hall : ∀ x, ∀ y ∈ link x, y ∈ all) (hlen : (start :: all).length < rounds)

include hall

omit [BEq α] [LawfulBEq α] in
lemma mem_cons_of_mem_bind : ∀ x, ∀ y ∈ (link x).bind there?, y ∈ start :: all :=
  fun x y hy => List.mem_cons_of_mem start (hall x y ((mem_bind_iff hthere).1 hy).1)

include hlen

/-- Rounds beyond those that are enough change nothing. -/
lemma follow_there_of_le (hle : rounds ≤ more) :
    follow (fun x => (link x).bind there?) more (there? start) [] =
      follow (fun x => (link x).bind there?) rounds (there? start) [] :=
  follow_of_le (start :: all) (mem_cons_of_mem_bind hthere hall)
    (fun _ => mem_cons_of_mem_there? hthere) (List.nil_subset _) List.nodup_nil
    (by simpa using hlen) hle

lemma mem_follow_there_iff : y ∈ follow (fun x => (link x).bind there?) rounds (there? start) [] ↔
    There start ∧ ReflTransGen (fun a b => link a = some b ∧ There b) start y := by
  rw [mem_follow_iff (start :: all) (mem_cons_of_mem_bind hthere hall)
    (fun _ => mem_cons_of_mem_there? hthere) (List.nil_subset _) List.nodup_nil
    (by simpa using hlen) (List.forall_mem_nil _)]
  simp [hthere, mem_bind_iff hthere]

/-- Following links that lead to something which is there, in enough rounds, makes a line. -/
lemma isLine_follow : IsLine There link start
    (follow (fun x => (link x).bind there?) rounds (there? start) []) := by
  refine ⟨fun x => ?_, ?_, nodup_follow List.nodup_nil, fun x hx => ?_, fun x hx y hxy hy => ?_⟩
  · obtain ⟨rounds, rfl⟩ := Nat.exists_eq_add_of_lt hlen
    rw [head?_follow]
    exact hthere start x
  · refine (isChain_follow ?_).imp fun x y hxy => ((mem_bind_iff hthere).1 hxy).1
    cases there? start <;> simp
  · obtain ⟨hs, hx⟩ := (mem_follow_there_iff hthere hall hlen).1 hx
    rcases ReflTransGen.cases_tail hx with rfl | ⟨z, -, hz⟩
    · exact hs
    · exact hz.2
  · obtain ⟨hs, hx⟩ := (mem_follow_there_iff hthere hall hlen).1 (List.mem_of_getLast? hx)
    exact (mem_follow_there_iff hthere hall hlen).2 ⟨hs, hx.tail ⟨hxy, hy⟩⟩

end There

/-- The circle is that of 1, 2 and 3, to which 0 does not belong. -/
example : follow (fun n => some (if n = 3 then 1 else n + 1)) 9 (some 0) [] = [0, 1, 2, 3] := by
  decide

end Line

/-! ## The first of things with the same key -/

section Keys

variable {ι κ : Type*} [BEq κ] {key : ι → κ} {l : List ι} {seen : List κ}

lemma mem_of_mem_firstByKey {x : ι} (hx : x ∈ firstByKey key seen l) : x ∈ l := by
  induction l generalizing seen with
  | nil => cases hx
  | cons y r ih =>
    rw [firstByKey] at hx
    split at hx
    · exact List.mem_cons_of_mem y (ih hx)
    · rcases List.mem_cons.1 hx with rfl | hx
      · exact List.mem_cons_self
      · exact List.mem_cons_of_mem y (ih hx)

lemma firstByKey_append (l' : List ι) : firstByKey key seen (l ++ l') =
    firstByKey key seen l ++
      firstByKey key (((firstByKey key seen l).map key).reverse ++ seen) l' := by
  induction l generalizing seen with
  | nil => rfl
  | cons x r ih =>
    rw [List.cons_append, firstByKey, firstByKey]
    split
    · exact ih
    · rw [ih, List.cons_append, List.map_cons, List.reverse_cons, List.append_assoc,
        List.singleton_append]

variable [LawfulBEq κ]

/-- The keys are new, and no two of them are the same. -/
lemma nodup_map_firstByKey (key : ι → κ) (seen : List κ) (l : List ι) :
    ((firstByKey key seen l).map key).Nodup ∧ ∀ x ∈ firstByKey key seen l, key x ∉ seen := by
  induction l generalizing seen with
  | nil => exact ⟨List.nodup_nil, List.forall_mem_nil _⟩
  | cons x r ih =>
    rw [firstByKey]
    split
    · exact ih seen
    · next hx =>
      obtain ⟨hd, hnew⟩ := ih (key x :: seen)
      simp only [List.mem_cons, not_or] at hnew
      refine ⟨List.nodup_cons.2 ⟨?_, hd⟩, List.forall_mem_cons.2 ⟨?_, fun y hy => (hnew y hy).2⟩⟩
      · rintro hk
        obtain ⟨y, hy, e⟩ := List.mem_map.1 hk
        exact (hnew y hy).1 e
      · simpa using hx

/-- Every key that is not known yet has a first thing. -/
lemma exists_mem_firstByKey (key : ι → κ) (seen : List κ) {x : ι} (hx : x ∈ l) :
    key x ∈ seen ∨ ∃ y ∈ firstByKey key seen l, key y = key x := by
  induction l generalizing seen with
  | nil => cases hx
  | cons z r ih =>
    rw [firstByKey]
    split
    · next hz =>
      rcases List.mem_cons.1 hx with rfl | hx
      · exact .inl (by simpa using hz)
      · exact ih seen hx
    · rcases List.mem_cons.1 hx with rfl | hx
      · exact .inr ⟨x, List.mem_cons_self, rfl⟩
      · obtain hk | ⟨y, hy, e⟩ := ih (key z :: seen) hx
        · rcases List.mem_cons.1 hk with hk | hk
          · exact .inr ⟨z, List.mem_cons_self, hk.symm⟩
          · exact .inl hk
        · exact .inr ⟨y, List.mem_cons_of_mem z hy, e⟩

end Keys

end Semdoc.Walk
