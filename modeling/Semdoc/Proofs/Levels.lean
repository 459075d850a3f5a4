import Mathlib.Order.Bounds.Basic
import Semdoc.Proofs.Walk

/-!
# Walks by levels

A walk that puts what a thing links to at the end of its queue meets everything in the order of how many links are
in between, since what is put there is one link further away than what is at the head of the queue.  So what is
met more than once has been met first with the fewest links in between.
-/

namespace Semdoc.Walk

variable {α : Type*}

/-- Things that one comes to from an entry by a number of links. -/
inductive LevelAt (next : α → List α) (entry : List α) : Nat → α → Prop
  | entry {x : α} (hx : x ∈ entry) : LevelAt next entry 0 x
  | next {n : Nat} {x y : α} (h : LevelAt next entry n x) (hy : y ∈ next x) :
      LevelAt next entry (n + 1) y

/-- A thing stands somewhere with at most a number of links in between. -/
def Near (l : List (α × Nat)) (x : α) (n : Nat) : Prop := ∃ m, (x, m) ∈ l ∧ m ≤ n

/-- What has been met, and what is still to be visited, is ordered by how many links are in between, and what is
still to be visited differs by one link at most.  Everything that follows from what has been met is there, with
no more links in between than that. -/
structure Ranked (next : α → List α) (entry : List α) (work met : List (α × Nat)) : Prop where
  levelAt : ∀ e ∈ met ++ work, LevelAt next entry e.2 e.1
  ordered : (met ++ work).Pairwise fun a b => a.2 ≤ b.2
  narrow : work.Pairwise fun a b => b.2 ≤ a.2 + 1
  entry : ∀ x ∈ entry, Near (met ++ work) x 0
  next : ∀ e ∈ met, ∀ y ∈ next e.1, Near (met ++ work) y (e.2 + 1)

/-- Visits what is fewer links away first, and counts the links.  `seen` is what has been visited, the last
first. -/
def byLevel [BEq α] (next : α → List α) :
    Nat → List (α × Nat) → List (α × Nat) → List (α × Nat)
  | 0, _, seen => seen.reverse
  | rounds + 1, work, seen =>
    match work.filter fun e => !(seen.map Prod.fst).contains e.1 with
    | [] => seen.reverse
    | (x, n) :: rest =>
      byLevel next rounds (rest ++ (next x).map (·, n + 1)) ((x, n) :: seen)

/-- What is met from an entry, with the number of links in between. -/
def levels [BEq α] (next : α → List α) (entry : List α) (rounds : Nat) : List (α × Nat) :=
  byLevel next rounds (entry.map (·, 0)) []

variable {next : α → List α} {entry : List α} {work met : List (α × Nat)} {x : α} {n : Nat}

namespace Ranked

lemma initial (next : α → List α) (entry : List α) : Ranked next entry (entry.map (·, 0)) [] where
  levelAt e he := by
    obtain ⟨x, hx, rfl⟩ := List.mem_map.1 he
    exact .entry hx
  ordered := List.pairwise_map.2 (List.pairwise_of_forall fun _ _ => Nat.le_refl 0)
  narrow := List.pairwise_map.2 (List.pairwise_of_forall fun _ _ => Nat.zero_le _)
  entry x hx := ⟨0, List.mem_map_of_mem hx, Nat.le_refl 0⟩
  next e he := by cases he

/-- What has been met has been met before it comes up again. -/
lemma within_met (h : Ranked next entry work met) (hx : x ∈ met.map Prod.fst)
    (hw : Near (met ++ work) x n) : Near met x n := by
  obtain ⟨m, hm, hle⟩ := hw
  rcases List.mem_append.1 hm with hm | hm
  · exact ⟨m, hm, hle⟩
  · obtain ⟨⟨_, k⟩, hk, rfl⟩ := List.mem_map.1 hx
    exact ⟨k, hk, Nat.le_trans ((List.pairwise_append.1 h.ordered).2.2 _ hk _ hm) hle⟩

/-- What has been met may be left out of what is to be visited. -/
lemma filter (h : Ranked next entry work met) {p : α × Nat → Bool}
    (hp : ∀ e ∈ work, p e = false → e.1 ∈ met.map Prod.fst) :
    Ranked next entry (work.filter p) met := by
  have hsub : (met ++ work.filter p).Sublist (met ++ work) := List.filter_sublist.append_left met
  have hwithin : ∀ {x n}, Near (met ++ work) x n → Near (met ++ work.filter p) x n := by
    rintro x n ⟨m, hm, hle⟩
    rcases List.mem_append.1 hm with hm' | hm'
    · exact ⟨m, List.mem_append_left _ hm', hle⟩
    · cases hpe : p (x, m) with
      | true => exact ⟨m, List.mem_append_right _ (List.mem_filter.2 ⟨hm', hpe⟩), hle⟩
      | false =>
        obtain ⟨k, hk, hkn⟩ := h.within_met (hp _ hm' hpe) ⟨m, hm, hle⟩
        exact ⟨k, List.mem_append_left _ hk, hkn⟩
  exact ⟨fun e he => h.levelAt e (hsub.subset he), h.ordered.sublist hsub,
    h.narrow.sublist List.filter_sublist, fun x hx => hwithin (h.entry x hx),
    fun e he y hy => hwithin (h.next e he y hy)⟩

/-- The thing at the head is visited. -/
lemma visit (h : Ranked next entry ((x, n) :: work) met) :
    Ranked next entry (work ++ (next x).map (·, n + 1)) (met ++ [(x, n)]) := by
  have hsplit : met ++ [(x, n)] ++ (work ++ (next x).map (·, n + 1)) =
      met ++ (x, n) :: work ++ (next x).map (·, n + 1) := by simp
  have hwithin : ∀ {y m}, Near (met ++ (x, n) :: work) y m →
      Near (met ++ [(x, n)] ++ (work ++ (next x).map (·, n + 1))) y m := by
    rintro y m ⟨k, hk, hle⟩
    exact ⟨k, hsplit ▸ List.mem_append_left _ hk, hle⟩
  obtain ⟨-, hwork, hcross⟩ := List.pairwise_append.1 h.ordered
  obtain ⟨hhead, -⟩ := List.pairwise_cons.1 hwork
  obtain ⟨hnarrow, hrest⟩ := List.pairwise_cons.1 h.narrow
  refine ⟨?_, ?_, ?_, fun y hy => hwithin (h.entry y hy), ?_⟩
  · intro e he
    rw [hsplit] at he
    rcases List.mem_append.1 he with he | he
    · exact h.levelAt e he
    · obtain ⟨y, hy, rfl⟩ := List.mem_map.1 he
      exact (h.levelAt (x, n) (by simp)).next hy
  · rw [hsplit]
    refine List.pairwise_append.2 ⟨h.ordered,
      List.pairwise_map.2 (List.pairwise_of_forall fun _ _ => Nat.le_refl _), fun a ha b hb => ?_⟩
    obtain ⟨y, -, rfl⟩ := List.mem_map.1 hb
    rcases List.mem_append.1 ha with ha | ha
    · exact Nat.le_succ_of_le (hcross a ha (x, n) List.mem_cons_self)
    · rcases List.mem_cons.1 ha with rfl | ha
      · exact Nat.le_succ n
      · exact hnarrow a ha
  · refine List.pairwise_append.2 ⟨hrest,
      List.pairwise_map.2 (List.pairwise_of_forall fun _ _ => Nat.le_succ _), fun a ha b hb => ?_⟩
    obtain ⟨y, -, rfl⟩ := List.mem_map.1 hb
    exact Nat.succ_le_succ (hhead a ha)
  · intro e he y hy
    rcases List.mem_append.1 he with he | he
    · exact hwithin (h.next e he y hy)
    · obtain rfl := List.mem_singleton.1 he
      exact ⟨n + 1, hsplit ▸ List.mem_append_right _ (List.mem_map_of_mem hy), Nat.le_refl _⟩

/-- The walk keeps the order, wherever it stops. -/
lemma exists_byLevel [BEq α] [LawfulBEq α] (h : Ranked next entry work met) (rounds : Nat) :
    ∃ left, Ranked next entry left (byLevel next rounds work met.reverse) := by
  induction rounds generalizing work met with
  | zero => exact ⟨work, by rwa [byLevel, List.reverse_reverse]⟩
  | succ rounds ih =>
    have hfilter := h.filter (p := fun e => !(met.reverse.map Prod.fst).contains e.1) (by simp)
    rw [byLevel]
    split
    · exact ⟨work, by rwa [List.reverse_reverse]⟩
    · next x n rest hrest =>
      have hnext := ih (hrest ▸ hfilter).visit
      rwa [List.reverse_append] at hnext

end Ranked

section

variable [BEq α] {rounds : Nat}

/-- But for the number of links, the walk is one that visits what is fewer links away first. -/
lemma map_fst_byLevel (next : α → List α) (rounds : Nat) (work seen : List (α × Nat)) :
    (byLevel next rounds work seen).map Prod.fst =
      breadthFirst next rounds (work.map Prod.fst) (seen.map Prod.fst) := by
  induction rounds generalizing work seen with
  | zero => exact List.map_reverse
  | succ rounds ih =>
    have hfilter : (work.map Prod.fst).filter (fun x => !(seen.map Prod.fst).contains x) =
        (work.filter fun e => !(seen.map Prod.fst).contains e.1).map Prod.fst := List.filter_map
    rw [byLevel, breadthFirst, hfilter]
    split
    · next hnil =>
      rw [hnil]
      exact List.map_reverse
    · next x n rest hrest =>
      rw [hrest]
      simp only [List.map_cons]
      rw [ih]
      simp [Function.comp_def]

lemma map_fst_levels (next : α → List α) (entry : List α) (rounds : Nat) :
    (levels next entry rounds).map Prod.fst = breadthFirst next rounds entry [] := by
  have hfst : (entry.map (·, 0)).map Prod.fst = entry := by
    rw [List.map_map]
    exact List.map_id _
  rw [levels, map_fst_byLevel, hfst, List.map_nil]

variable [LawfulBEq α]

lemma ranked_levels (next : α → List α) (entry : List α) (rounds : Nat) :
    ∃ left, Ranked next entry left (levels next entry rounds) :=
  (Ranked.initial next entry).exists_byLevel rounds

lemma nodup_map_fst_levels (next : α → List α) (entry : List α) (rounds : Nat) :
    ((levels next entry rounds).map Prod.fst).Nodup := by
  rw [map_fst_levels]
  exact nodup_breadthFirst List.nodup_nil

/-- What is fewer links away is met earlier. -/
lemma pairwise_levels (next : α → List α) (entry : List α) (rounds : Nat) :
    (levels next entry rounds).Pairwise fun a b => a.2 ≤ b.2 := by
  obtain ⟨left, hranked⟩ := ranked_levels next entry rounds
  exact (List.pairwise_append.1 hranked.ordered).1

lemma levelAt_of_mem_levels (h : (x, n) ∈ levels next entry rounds) : LevelAt next entry n x := by
  obtain ⟨left, hranked⟩ := ranked_levels next entry rounds
  exact hranked.levelAt (x, n) (List.mem_append_left _ h)

variable {all : List α} (hnext : ∀ x ∈ all, next x ⊆ all) (hentry : entry ⊆ all)
  (hlen : all.length < rounds)
include hnext hentry hlen

/-- With enough rounds everything is met, with no more links in between. -/
lemma LevelAt.near (h : LevelAt next entry n x) : Near (levels next entry rounds) x n := by
  obtain ⟨left, hranked⟩ := ranked_levels next entry rounds
  have hclosed := breadthFirst_closed hnext hentry (List.nil_subset _) List.nodup_nil
    (by simpa using hlen) (List.forall_mem_nil _)
  rw [← map_fst_levels] at hclosed
  induction h with
  | entry hx => exact hranked.within_met (hclosed.1 hx) (hranked.entry _ hx)
  | next _ hy ih =>
    obtain ⟨m, hm, hle⟩ := ih
    obtain ⟨k, hk, hkm⟩ := hranked.within_met (hclosed.2.2 _ (List.mem_map_of_mem hm) hy)
      (hranked.next _ hm _ hy)
    exact ⟨k, hk, Nat.le_trans hkm (Nat.succ_le_succ hle)⟩

/-- With enough rounds everything is met that one comes to, with the least number of links. -/
theorem mem_levels_iff :
    (x, n) ∈ levels next entry rounds ↔ IsLeast {m | LevelAt next entry m x} n := by
  constructor
  · intro h
    refine ⟨levelAt_of_mem_levels h, fun m hm => ?_⟩
    obtain ⟨k, hk, hle⟩ := LevelAt.near hnext hentry hlen hm
    -- there is only one number of links for each thing
    obtain rfl : n = k := congrArg Prod.snd
      (List.inj_on_of_nodup_map (nodup_map_fst_levels next entry rounds) h hk rfl)
    exact hle
  · intro h
    obtain ⟨k, hk, hle⟩ := LevelAt.near hnext hentry hlen h.1
    have hnk : n ≤ k := h.2 (levelAt_of_mem_levels hk)
    rwa [Nat.le_antisymm hnk hle]

end

end Semdoc.Walk
