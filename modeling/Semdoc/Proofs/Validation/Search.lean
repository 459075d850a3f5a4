import Mathlib.Logic.Relation
import Semdoc.Proofs.Validation.Pass
import Semdoc.Proofs.Validation.Unmarked

/-!
# Validation as a search

Validation goes from a node to those it needs, enters each of them once and stops at marked nodes.  A
node counts as valid while it is looked at, so that the result for a node within a cycle may be wrong
by itself.  The result for the node at which validation begins is right nevertheless: it is true
exactly if all nodes that are met pass their own checks.
-/

namespace Semdoc

open Relation

namespace Store

/-- Whether a node passes its own checks. -/
def passes (s : Store) (h : NodeHandle) : Bool :=
  ((s.get? h).map fun n => (s.checkNode h n).value).getD false

/-- What has to be valid for a node to be valid: the nodes that it owns or rests on. -/
def needs (s : Store) (h : NodeHandle) : List NodeHandle :=
  ((s.get? h).map fun n => s.neededBy h n).getD []

/-- A node has to be valid for another one to be valid. -/
def Needs (s : Store) (h k : NodeHandle) : Prop := k ∈ s.needs h

/-- Validation goes on from a node to an unmarked one. -/
def LeadsTo (s : Store) (h k : NodeHandle) : Prop := s.Needs h k ∧ s.isValidated k = false

@[simp] lemma passes_unmarked (s : Store) : s.unmarked.passes = s.passes := by
  funext h
  rw [passes, get?_unmarked, Option.map_map, passes]
  congr 2
  funext n
  exact congrArg Logged.value (s.checkNode_unmarked h n)

@[simp] lemma needs_unmarked (s : Store) : s.unmarked.needs = s.needs := by
  funext h
  rw [needs, get?_unmarked, Option.map_map, needs]
  congr 2
  funext n
  exact s.neededBy_unmarked h n

lemma isValidated_unmarked (s : Store) (h : NodeHandle) : s.unmarked.isValidated h = false := by
  rw [isValidated, get?_unmarked]
  cases s.get? h <;> rfl

lemma contains_of_mem_needs {s : Store} {h k : NodeHandle} (hk : k ∈ s.needs h) :
    s.contains k = true := by
  unfold needs at hk
  cases hn : s.get? h with
  | none => simp [hn] at hk
  | some n =>
    rw [hn, Option.map_some, Option.getD_some, neededBy, List.mem_filter] at hk
    exact hk.2

/-- Marking a node changes nothing else. -/
lemma unmarked_mark (s : Store) (h : NodeHandle) :
    (s.modify h fun n => { n with validated := true }).unmarked = s.unmarked := by
  unfold modify
  split
  · rfl
  · next n hn =>
    obtain ⟨i, hi, hc⟩ := get?_eq_some_iff.1 hn
    simp only [unmarked, hi, Nat.add_sub_cancel]
    congr 1
    apply Array.ext_getElem?
    intro j
    rw [Array.getElem?_map, Array.getElem?_map, Array.getElem?_setIfInBounds]
    split
    · next e =>
      subst e
      have hlt : i < s.cells.size := (Array.getElem?_eq_some_iff.1 hc).1
      rw [if_pos hlt, hc]
      rfl
    · rfl

lemma isValidated_mark (s : Store) (h k : NodeHandle) :
    (s.modify h fun n => { n with validated := true }).isValidated k =
      (s.isValidated k || (k == h && s.contains h)) := by
  unfold isValidated contains
  rw [get?_modify]
  by_cases e : k = h
  · subst e
    cases s.get? k <;> simp
  · simp [e]

end Store

namespace Validating

open Store

/-- There is a result for a node. -/
def Visited (v : Verdicts) (k : NodeHandle) : Prop := ∃ ok, verdict? v k = some ok

lemma verdict?_cons (h k : NodeHandle) (ok : Bool) (v : Verdicts) :
    verdict? ((h, ok) :: v) k = if k = h then some ok else verdict? v k := by
  unfold verdict?
  rw [List.find?_cons]
  by_cases e : h = k
  · simp [e]
  · have hb : (h == k) = false := by simpa using e
    rw [hb, if_neg (Ne.symm e)]

lemma visited_cons {h k : NodeHandle} {ok : Bool} {v : Verdicts} :
    Visited ((h, ok) :: v) k ↔ k = h ∨ Visited v k := by
  unfold Visited
  rw [verdict?_cons]
  by_cases e : k = h
  · simp [e]
  · simp [e]

/-- A node without a positive result shows that something does not pass its checks. -/
def Explained (st : State) : Prop :=
  ∀ k, verdict? st.2 k = some false → ∃ j, Visited st.2 j ∧ st.1.passes j = false

/-- What is done between two states in which some nodes are looked at with some result. -/
structure Searched (st st' : State) (hs : List NodeHandle) (ok : Bool) : Prop where
  same : st'.1.unmarked = st.1.unmarked
  keeps : ∀ k, st.1.isValidated k = true → st'.1.isValidated k = true
  marked : ∀ k, st'.1.isValidated k = true →
    st.1.isValidated k = true ∨ Visited st'.2 k ∧ st.1.passes k = true
  mono : ∀ k, Visited st.2 k → Visited st'.2 k
  reached : ∀ k, Visited st'.2 k → Visited st.2 k ∨
    ∃ h ∈ hs, st.1.isValidated h = false ∧ ReflTransGen st.1.LeadsTo h k
  meets : ∀ h ∈ hs, st.1.contains h = true → st'.1.isValidated h = true ∨ Visited st'.2 h
  closed : ∀ k, Visited st'.2 k → Visited st.2 k ∨
    ∀ c ∈ st.1.needs k, st'.1.isValidated c = true ∨ Visited st'.2 c
  passes_of_ok : ok = true → ∀ k, Visited st'.2 k → Visited st.2 k ∨ st.1.passes k = true
  ok_of_passes : Explained st → (∀ h ∈ hs, st.1.contains h = true) →
    (∀ k, Visited st'.2 k → st.1.passes k = true) → ok = true
  explained : Explained st → Explained st'

namespace Searched

variable {st st' st'' : State} {hs : List NodeHandle} {ok : Bool}

lemma contains (h : Searched st st' hs ok) : st'.1.contains = st.1.contains := by
  rw [← contains_unmarked, h.same, contains_unmarked]

lemma passes (h : Searched st st' hs ok) : st'.1.passes = st.1.passes := by
  rw [← passes_unmarked, h.same, passes_unmarked]

lemma needs (h : Searched st st' hs ok) : st'.1.needs = st.1.needs := by
  rw [← needs_unmarked, h.same, needs_unmarked]

lemma size (h : Searched st st' hs ok) : st'.1.cells.size = st.1.cells.size := by
  have e := congrArg (fun s : Store => s.cells.size) h.same
  simpa [Store.unmarked] using e

/-- Where marks are only made, fewer ways are left. -/
lemma leadsTo (h : Searched st st' hs ok) {j k : NodeHandle} (hjk : st'.1.LeadsTo j k) :
    st.1.LeadsTo j k := by
  refine ⟨?_, ?_⟩
  · rw [Needs, ← h.needs]
    exact hjk.1
  by_contra hk
  rw [Bool.not_eq_false] at hk
  have hk' := h.keeps k hk
  rw [hjk.2] at hk'
  cases hk'

/-- Nothing is looked at, or what has a result already. -/
lemma refl (st : State) (hs : List NodeHandle) (ok : Bool)
    (hm : ∀ h ∈ hs, st.1.contains h = true → st.1.isValidated h = true ∨ Visited st.2 h)
    (ho : Explained st → (∀ h ∈ hs, st.1.contains h = true) →
      (∀ k, Visited st.2 k → st.1.passes k = true) → ok = true) : Searched st st hs ok where
  same := rfl
  keeps := fun _ => id
  marked := fun _ => .inl
  mono := fun _ => id
  reached := fun _ => .inl
  meets := hm
  closed := fun _ => .inl
  passes_of_ok := fun _ _ => .inl
  ok_of_passes := ho
  explained := id

/-- One node is looked at after another. -/
lemma trans {h : NodeHandle} {a b : Bool} (h1 : Searched st st' [h] a)
    (h2 : Searched st' st'' hs b) : Searched st st'' (h :: hs) (a && b) where
  same := h2.same.trans h1.same
  keeps := fun k hk => h2.keeps k (h1.keeps k hk)
  marked := by
    intro k hk
    rcases h2.marked k hk with hk | hk
    · exact (h1.marked k hk).imp_right (.imp_left (h2.mono k))
    · exact .inr (hk.imp_right fun hp => h1.passes ▸ hp)
  mono := fun k hk => h2.mono k (h1.mono k hk)
  reached := by
    intro k hk
    rcases h2.reached k hk with hk | ⟨j, hj, hv, hjk⟩
    · rcases h1.reached k hk with hk | ⟨j, hj, hv, hjk⟩
      · exact .inl hk
      · exact .inr ⟨j, List.mem_cons.2 (.inl (List.mem_singleton.1 hj)), hv, hjk⟩
    · refine .inr ⟨j, List.mem_cons_of_mem _ hj, ?_, ?_⟩
      · by_contra hv'
        rw [Bool.not_eq_false] at hv'
        rw [h1.keeps j hv'] at hv
        cases hv
      · exact ReflTransGen.mono (fun _ _ => h1.leadsTo) _ _ hjk
  meets := by
    intro k hk hc
    rcases List.mem_cons.1 hk with rfl | hk
    · exact (h1.meets k (List.mem_singleton.2 rfl) hc).imp (h2.keeps k) (h2.mono k)
    · exact h2.meets k hk (h1.contains ▸ hc)
  closed := by
    intro k hk
    rcases h2.closed k hk with hk | hk
    · exact (h1.closed k hk).imp_right fun hn c hc => (hn c hc).imp (h2.keeps c) (h2.mono c)
    · exact .inr fun c hc => hk c (h1.needs ▸ hc)
  passes_of_ok := by
    intro hok k hk
    rw [Bool.and_eq_true] at hok
    rcases h2.passes_of_ok hok.2 k hk with hk | hk
    · exact h1.passes_of_ok hok.1 k hk
    · exact .inr (h1.passes ▸ hk)
  ok_of_passes := by
    intro he hl hp
    have ha := h1.ok_of_passes he
      (fun k hk => hl k (List.mem_cons.2 (.inl (List.mem_singleton.1 hk))))
      fun k hk => hp k (h2.mono k hk)
    -- what is explained after the first node is explained before the others
    have hb := h2.ok_of_passes (h1.explained he)
      (fun k hk => h1.contains ▸ hl k (List.mem_cons_of_mem _ hk))
      fun k hk => h1.passes ▸ hp k hk
    rw [ha, hb]
    rfl
  explained := h2.explained ∘ h1.explained

end Searched

/-! ## Rounds -/

/-- The rounds exceed the number of nodes that have no result. -/
def Enough (depth : Nat) (st : State) : Prop :=
  ∃ seen : List NodeHandle, seen.Nodup ∧
    (∀ k ∈ seen, st.1.contains k = true ∧ Visited st.2 k) ∧
    st.1.cells.size < seen.length + depth

lemma Enough.of_searched {depth : Nat} {st st' : State} {hs : List NodeHandle} {ok : Bool}
    (h : Enough depth st) (hst : Searched st st' hs ok) : Enough depth st' := by
  obtain ⟨seen, hd, hv, hlen⟩ := h
  refine ⟨seen, hd, fun k hk => ⟨?_, hst.mono k (hv k hk).2⟩, ?_⟩
  · rw [hst.contains]
    exact (hv k hk).1
  · rw [hst.size]
    exact hlen

/-- Looking at a node that has no result uses one round up. -/
lemma Enough.enter {depth : Nat} {s : Store} {v : Verdicts} {h : NodeHandle} {ok : Bool}
    (he : Enough (depth + 1) (s, v)) (hl : s.contains h = true) (hv : verdict? v h = none) :
    Enough depth (s, (h, ok) :: v) := by
  obtain ⟨seen, hd, hseen, hlen⟩ := he
  refine ⟨h :: seen, List.nodup_cons.2 ⟨fun hm => ?_, hd⟩, ?_, ?_⟩
  · obtain ⟨b, hb⟩ := (hseen h hm).2
    rw [hv] at hb
    cases hb
  · intro k hk
    rcases List.mem_cons.1 hk with rfl | hk
    · exact ⟨hl, visited_cons.2 (.inl rfl)⟩
    · exact ⟨(hseen k hk).1, visited_cons.2 (.inr (hseen k hk).2)⟩
  · simp only [List.length_cons]
    simp only at hlen
    omega

lemma Enough.start (s : Store) : Enough (s.bound + 1) (s, []) := by
  refine ⟨[], List.nodup_nil, fun k hk => ?_, ?_⟩
  · cases hk
  · show s.cells.size < 0 + (s.cells.size + 1 + 1)
    omega

lemma Enough.not_zero {st : State} : ¬ Enough 0 st := by
  rintro ⟨seen, hd, hv, hlen⟩
  have := length_le_size_cells hd fun k hk => (hv k hk).1
  omega

lemma searched_passAll {depth : Nat}
    (hp : ∀ h st, Enough depth st → Searched st (pass depth h st).2 [h] (pass depth h st).1)
    (hs : List NodeHandle) (r : Bool × State) (he : Enough depth r.2) :
    ∃ ok, (passAll depth hs r).1 = (r.1 && ok) ∧
      Searched r.2 (passAll depth hs r).2 hs ok := by
  induction hs generalizing r with
  | nil =>
    refine ⟨true, (Bool.and_true _).symm, .refl _ _ _ ?_ fun _ _ _ => rfl⟩
    intro h hh
    cases hh
  | cons h rest ih =>
    have h1 := hp h r.2 he
    obtain ⟨ok, e, h2⟩ :=
      ih (r.1 && (pass depth h r.2).1, (pass depth h r.2).2) (he.of_searched h1)
    refine ⟨(pass depth h r.2).1 && ok, ?_, h1.trans h2⟩
    rw [← Bool.and_assoc]
    exact e

section Settle

variable {s s' : Store} {v v' : Verdicts} {h : NodeHandle} {b : Bool}

lemma unmarked_settle (h : NodeHandle) (b : Bool) (s : Store) (v : Verdicts) :
    (settle h (b, s, v)).2.1.unmarked = s.unmarked := by
  cases b with
  | false => rfl
  | true => exact unmarked_mark s h

lemma isValidated_settle (hl : s.contains h = true) (k : NodeHandle) :
    (settle h (b, s, v)).2.1.isValidated k = true ↔ s.isValidated k = true ∨ b = true ∧ k = h := by
  cases b with
  | false => simp [settle]
  | true => simp [settle, isValidated_mark, hl]

lemma visited_settle {k : NodeHandle} :
    Visited (settle h (b, s, v)).2.2 k ↔ k = h ∨ Visited v k := visited_cons

/-- What holds of a node and of all that is looked at below it holds of all that has a result now and had
none before. -/
lemma visited_or_of_settle {P : NodeHandle → Prop} (hself : P h)
    (hbelow : ∀ k, Visited v' k → Visited ((h, true) :: v) k ∨ P k) (k : NodeHandle)
    (hk : Visited (settle h (b, s, v')).2.2 k) : Visited v k ∨ P k := by
  rcases visited_settle.1 hk with rfl | hk
  · exact .inr hself
  · rcases hbelow k hk with hk | hk
    · rcases visited_cons.1 hk with rfl | hk
      · exact .inr hself
      · exact .inl hk
    · exact .inr hk

/-- What is marked or has a result keeps it. -/
lemma met_settle (hl : s.contains h = true) {k : NodeHandle}
    (hk : s.isValidated k = true ∨ Visited v k) :
    (settle h (b, s, v)).2.1.isValidated k = true ∨ Visited (settle h (b, s, v)).2.2 k :=
  hk.imp (fun e => (isValidated_settle hl k).2 (.inl e)) fun e => visited_settle.2 (.inr e)

/-- The positive result with which a node is entered needs no explanation. -/
lemma Explained.enter (he : Explained (s, v)) (h : NodeHandle) :
    Explained (s, (h, true) :: v) := by
  intro k hk
  rw [verdict?_cons] at hk
  split at hk
  · cases hk
  · obtain ⟨j, hj, hjp⟩ := he k hk
    exact ⟨j, visited_cons.2 (.inr hj), hjp⟩

/-- A negative result is explained if it is only there when something does not pass its checks. -/
lemma Explained.settle (he : Explained (s, v))
    (hb : (∀ k, Visited (settle h (b, s, v)).2.2 k → s.passes k = true) → b = true) :
    Explained (settle h (b, s, v)).2 := by
  have hp : (Validating.settle h (b, s, v)).2.1.passes = s.passes := by
    rw [← passes_unmarked, unmarked_settle, passes_unmarked]
  intro k hk
  change verdict? ((h, b) :: v) k = some false at hk
  rw [verdict?_cons] at hk
  split at hk
  · have hb' : b = false := Option.some.inj hk
    by_contra hno
    have ht := hb fun j hj => by
      by_contra hjp
      exact hno ⟨j, hj, by rw [hp]; simpa using hjp⟩
    rw [hb'] at ht
    cases ht
  · obtain ⟨j, hj, hjp⟩ := he k hk
    exact ⟨j, visited_settle.2 (.inr hj), by rw [hp]; exact hjp⟩

/-- The result for a node is recorded after all that it needs has been looked at. -/
lemma Searched.settle {n : Node} {ok : Bool}
    (hn : s.get? h = some n) (hm : n.validated = false)
    (hs : Searched (s, (h, true) :: v) (s', v') (s.neededBy h n) ok) :
    Searched (s, v) (settle h ((s.checkNode h n).value && ok, s', v')).2 [h]
      ((s.checkNode h n).value && ok) := by
  have hpass : s.passes h = (s.checkNode h n).value := by rw [Store.passes, hn]; rfl
  have hneeds : s.needs h = s.neededBy h n := by rw [Store.needs, hn]; rfl
  have hval : s.isValidated h = false := by rw [Store.isValidated, hn]; exact hm
  rw [← hpass]
  rw [← hneeds] at hs
  generalize hb : (s.passes h && ok) = b
  have hl : s'.contains h = true := by
    rw [hs.contains]
    exact contains_iff.2 ⟨n, hn⟩
  have hall : Explained (s, v) →
      (∀ k, Visited (Validating.settle h (b, s', v')).2.2 k → s.passes k = true) → b = true := by
    intro he hp
    rw [← hb, hp h (visited_settle.2 (.inl rfl)), Bool.true_and]
    exact hs.ok_of_passes (he.enter h) (fun k hk => contains_of_mem_needs hk)
      fun k hk => hp k (visited_settle.2 (.inr hk))
  constructor
  case same => exact (unmarked_settle h b s' v').trans hs.same
  case keeps => exact fun k hk => (isValidated_settle hl k).2 (.inl (hs.keeps k hk))
  case marked =>
    intro k hk
    rcases (isValidated_settle hl k).1 hk with hk | ⟨hb', rfl⟩
    · exact (hs.marked k hk).imp_right (.imp_left fun e => visited_settle.2 (.inr e))
    · rw [hb', Bool.and_eq_true] at hb
      exact .inr ⟨visited_settle.2 (.inl rfl), hb.1⟩
  case mono => exact fun k hk => visited_settle.2 (.inr (hs.mono k (visited_cons.2 (.inr hk))))
  case reached =>
    have hself : ∃ j ∈ [h], s.isValidated j = false ∧ ReflTransGen s.LeadsTo j h :=
      ⟨h, List.mem_singleton.2 rfl, hval, .refl⟩
    refine visited_or_of_settle hself fun k hk => (hs.reached k hk).imp_right ?_
    rintro ⟨j, hj, hjv, hjk⟩
    exact ⟨h, List.mem_singleton.2 rfl, hval, .head ⟨hj, hjv⟩ hjk⟩
  case meets =>
    intro k hk _
    exact .inr (visited_settle.2 (.inl (List.mem_singleton.1 hk)))
  case closed =>
    have hself : ∀ c ∈ s.needs h, (Validating.settle h (b, s', v')).2.1.isValidated c = true ∨
        Visited (Validating.settle h (b, s', v')).2.2 c :=
      fun c hc => met_settle hl (hs.meets c hc (contains_of_mem_needs hc))
    exact visited_or_of_settle hself fun k hk =>
      (hs.closed k hk).imp_right fun hk c hc => met_settle hl (hk c hc)
  case passes_of_ok =>
    intro hok
    rw [hok, Bool.and_eq_true] at hb
    exact visited_or_of_settle hb.1 (hs.passes_of_ok hb.2)
  case ok_of_passes => exact fun he _ hp => hall he hp
  case explained =>
    intro he
    exact (hs.explained (he.enter h)).settle fun hp => hall he fun k hk => hs.passes ▸ hp k hk

end Settle

/-- Every pass is a search from its node. -/
theorem searched_pass (depth : Nat) (h : NodeHandle) (st : State) (he : Enough depth st) :
    Searched st (pass depth h st).2 [h] (pass depth h st).1 := by
  induction depth generalizing h st with
  | zero => exact (Enough.not_zero he).elim
  | succ depth ih =>
    obtain ⟨s, v⟩ := st
    rw [pass_succ]
    cases hn : s.get? h with
    | none =>
      have hl : ∀ k ∈ [h], s.contains k ≠ true := by
        intro k hk
        rw [List.mem_singleton.1 hk, contains, hn]
        simp
      exact .refl _ _ _ (fun k hk hc => (hl k hk hc).elim)
        fun _ hc _ => (hl h (List.mem_singleton.2 rfl) (hc h (List.mem_singleton.2 rfl))).elim
    | some n =>
      cases hm : n.validated with
      | true =>
        simp only [hm, if_true]
        refine .refl _ _ _ (fun k hk _ => .inl ?_) fun _ _ _ => rfl
        rw [List.mem_singleton.1 hk, isValidated, hn]
        exact hm
      | false =>
        cases hv : verdict? v h with
        | some ok =>
          simp only [hm, Bool.false_eq_true, if_false]
          refine .refl _ _ _ (fun k hk _ => .inr ?_) fun hex _ hp => ?_
          · rw [List.mem_singleton.1 hk]
            exact ⟨ok, hv⟩
          · cases ok with
            | true => rfl
            | false =>
              obtain ⟨j, hj, hjp⟩ := hex h hv
              rw [hp j hj] at hjp
              cases hjp
        | none =>
          have hl : s.contains h = true := contains_iff.2 ⟨n, hn⟩
          -- the node is entered as valid before what it needs is looked at
          obtain ⟨ok, e, hs⟩ := searched_passAll ih (s.neededBy h n)
            ((s.checkNode h n).value, s, (h, true) :: v) (he.enter hl hv)
          have hset := Searched.settle hn hm hs
          rw [← e] at hset
          simp only [hm, Bool.false_eq_true, if_false]
          exact hset

end Validating

namespace Store

open Validating

/-- A node is found valid exactly if it is marked, or everything that is met from it without going
on from marked nodes passes its own checks. -/
theorem validate_iff (s : Store) (h : NodeHandle) :
    (s.validate h).value.1 = true ↔
      s.isValidated h = true ∨ ∀ k, ReflTransGen s.LeadsTo h k → s.passes k = true := by
  have hnone : ∀ k, ¬ Visited [] k := by
    rintro k ⟨ok, hok⟩
    cases hok
  have hs := searched_pass (s.bound + 1) h (s, []) (.start s)
  rw [value_validate]
  cases hn : s.get? h with
  | none =>
    have hv : s.isValidated h = false := by rw [isValidated, hn]; rfl
    have hp : s.passes h = false := by rw [passes, hn]; rfl
    rw [pass_succ, hn, hv]
    constructor
    · intro e
      cases e
    · rintro (e | e)
      · cases e
      · rw [e h .refl] at hp
        cases hp
  | some n =>
    have hl : s.contains h = true := contains_iff.2 ⟨n, hn⟩
    generalize pass (s.bound + 1) h (s, []) = r at hs
    obtain ⟨ok, s', v'⟩ := r
    constructor
    · intro hok
      cases hv : s.isValidated h with
      | true => exact .inl rfl
      | false =>
        have hmet : ∀ {k}, s.isValidated k = false → s'.isValidated k = true ∨ Visited v' k →
            Visited v' k := by
          rintro k hk (hm | hm)
          · refine ((hs.marked k hm).resolve_left fun e => ?_).1
            rw [hk] at e
            cases e
          · exact hm
        refine .inr fun k hk => ?_
        have hk' : Visited v' k := by
          induction hk with
          | refl => exact hmet hv (hs.meets h (List.mem_singleton.2 rfl) hl)
          | tail _ hjk ih =>
            exact hmet hjk.2 ((hs.closed _ ih).resolve_left (hnone _) _ hjk.1)
        exact (hs.passes_of_ok hok k hk').resolve_left (hnone k)
    · intro hor
      refine hs.ok_of_passes (fun k hk => by cases hk) (fun k hk => ?_) fun k hk => ?_
      · rw [List.mem_singleton.1 hk]
        exact hl
      · obtain ⟨j, hj, hjv, hjk⟩ := (hs.reached k hk).resolve_left (hnone k)
        rw [List.mem_singleton.1 hj] at hjv hjk
        refine hor.resolve_left (fun e => ?_) k hjk
        rw [hjv] at e
        cases e

/-- Validation marks only nodes that pass their own checks. -/
lemma passes_of_isValidated_validate {s : Store} {h k : NodeHandle}
    (hk : (s.validate h).value.2.isValidated k = true) :
    s.isValidated k = true ∨ s.passes k = true := by
  rw [value_validate] at hk
  exact ((searched_pass (s.bound + 1) h (s, []) (.start s)).marked k hk).imp_right (·.2)

/-- Without marks everything that is needed has to pass, however far away. -/
lemma validate_unmarked_iff (s : Store) (h : NodeHandle) :
    (s.unmarked.validate h).value.1 = true ↔
      ∀ k, ReflTransGen s.Needs h k → s.passes k = true := by
  have hstep : s.unmarked.LeadsTo = s.Needs := by
    funext j k
    rw [LeadsTo, Needs, needs_unmarked, isValidated_unmarked, Needs]
    simp
  rw [validate_iff, isValidated_unmarked, passes_unmarked, hstep]
  simp

/-- A way to something that is needed stays with unmarked nodes or passes through a marked one. -/
lemma leadsTo_or_marked (s : Store) {h k : NodeHandle}
    (hk : ReflTransGen s.Needs h k) :
    ReflTransGen s.LeadsTo h k ∨ ∃ m, ReflTransGen s.Needs h m ∧
      s.isValidated m = true ∧ ReflTransGen s.Needs m k := by
  induction hk with
  | refl => exact .inl .refl
  | @tail j k hj hjk ih =>
    rcases ih with ih | ⟨m, hm, hv, hmj⟩
    · cases hv : s.isValidated k with
      | false => exact .inl (ih.tail ⟨hjk, hv⟩)
      | true => exact .inr ⟨k, hj.tail hjk, hv, .refl⟩
    · exact .inr ⟨m, hm, hv, hmj.tail hjk⟩

/-- Marks never make validation fail, and it succeeds wrongly only if a marked node that is met would
not pass without marks. -/
theorem validate_unmarked (s : Store) (h : NodeHandle) :
    ((s.unmarked.validate h).value.1 = true → (s.validate h).value.1 = true) ∧
      ((s.validate h).value.1 = (s.unmarked.validate h).value.1 ↔
        ((s.validate h).value.1 = true → ∀ m, ReflTransGen s.Needs h m →
          s.isValidated m = true → (s.unmarked.validate m).value.1 = true)) := by
  have hup : (s.unmarked.validate h).value.1 = true → (s.validate h).value.1 = true := by
    rw [validate_unmarked_iff, validate_iff]
    intro hp
    exact .inr fun k hk => hp k (ReflTransGen.mono (fun _ _ h => h.1) _ _ hk)
  refine ⟨hup, fun e hv m hm _ => ?_, fun hmarked => Bool.eq_iff_iff.2 ⟨fun hv => ?_, hup⟩⟩
  · rw [e, validate_unmarked_iff] at hv
    rw [validate_unmarked_iff]
    exact fun k hk => hv k (hm.trans hk)
  · have hm := hmarked hv
    simp only [validate_unmarked_iff] at hm ⊢
    rw [validate_iff] at hv
    rcases hv with hv | hv
    · exact hm h .refl hv
    · intro k hk
      rcases s.leadsTo_or_marked hk with hk | ⟨m, hhm, hvm, hmk⟩
      · exact hv k hk
      · exact hm m hhm hvm k hmk

end Store

end Semdoc
