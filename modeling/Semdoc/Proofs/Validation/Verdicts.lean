import Semdoc.Proofs.Validation.Search

/-!
# Verdicts and marks

Within one validation a node that is still being looked at counts as valid.  So a node may be marked while one that
it needs is not, but only if the latter leads back to the node and is found not to be valid in the end.
-/

namespace Semdoc

open Relation

namespace Store

/-- Validation meets something that does not pass its own checks. -/
def Doubtful (s : Store) (h : NodeHandle) : Prop :=
  ∃ k, ReflTransGen s.LeadsTo h k ∧ s.passes k = false

lemma Doubtful.head {s : Store} {h k : NodeHandle} (hk : s.Doubtful k) (hhk : s.LeadsTo h k) :
    s.Doubtful h := by
  obtain ⟨j, hj, hp⟩ := hk
  exact ⟨j, .head hhk hj, hp⟩

/-- An unmarked node from which something like that is met is not valid. -/
lemma Doubtful.not_valid {s : Store} {h : NodeHandle} (hd : s.Doubtful h)
    (hv : s.isValidated h = false) : (s.validate h).value.1 = false := by
  obtain ⟨k, hk, hp⟩ := hd
  rw [← Bool.not_eq_true, validate_iff]
  rintro (h' | h')
  · rw [hv] at h'
    cases h'
  · rw [h' k hk] at hp
    cases hp

end Store

namespace Validating

open Store

variable {b : Store} {P : NodeHandle → Prop} {st st' : State}

/-- What can be said of a state while the nodes with some property are being looked at, in a validation that began
in a store: which nodes have results and marks, and why. -/
structure Accounted (b : Store) (P : NodeHandle → Prop) (st : State) : Prop where
  same : st.1.unmarked = b.unmarked
  keeps : ∀ k, b.isValidated k = true → st.1.isValidated k = true
  entered : ∀ k, P k → Visited st.2 k
  settled : ∀ k, verdict? st.2 k = some true → st.1.isValidated k = true ∨ P k
  doubted : ∀ k, verdict? st.2 k = some false → b.Doubtful k
  below : ∀ m, st.1.isValidated m = true → b.isValidated m = true ∨ ∀ c ∈ b.needs m,
    st.1.isValidated c = true ∨ Visited st.2 c ∧ TransGen b.LeadsTo c m

/-- All nodes that are being looked at lead to a node, unless that is marked. -/
def LeadsFrom (b : Store) (P : NodeHandle → Prop) (h : NodeHandle) : Prop :=
  ∀ k, P k → b.isValidated h = false → TransGen b.LeadsTo k h

/-- The result for a node is right, unless it is being looked at. -/
structure Justified (b : Store) (P : NodeHandle → Prop) (st' : State) (h : NodeHandle) (ok : Bool) :
    Prop where
  marked : ok = true → st'.1.isValidated h = true ∨ P h
  doubtful : ok = false → b.isValidated h = false ∧ b.Doubtful h

lemma Accounted.start (s : Store) : Accounted s (fun _ => False) (s, []) where
  same := rfl
  keeps := fun _ => id
  entered := fun _ => False.elim
  settled := fun _ h => by cases h
  doubted := fun _ h => by cases h
  below := fun _ => .inl

lemma Accounted.passes (ha : Accounted b P st) : st.1.passes = b.passes := by
  rw [← passes_unmarked, ha.same, passes_unmarked]

lemma Accounted.needs (ha : Accounted b P st) : st.1.needs = b.needs := by
  rw [← needs_unmarked, ha.same, needs_unmarked]

lemma Accounted.not_marked (ha : Accounted b P st) {h : NodeHandle} (hh : st.1.isValidated h = false) :
    b.isValidated h = false := by
  by_contra hv
  rw [Bool.not_eq_false] at hv
  rw [ha.keeps h hv] at hh
  cases hh

/-- A node is entered as valid. -/
lemma Accounted.enter {s : Store} {v : Verdicts} (ha : Accounted b P (s, v)) (h : NodeHandle) :
    Accounted b (fun k => k = h ∨ P k) (s, (h, true) :: v) where
  same := ha.same
  keeps := ha.keeps
  entered := fun k hk => visited_cons.2 (hk.imp_right (ha.entered k))
  settled := by
    intro k hk
    rw [verdict?_cons] at hk
    split at hk
    · next e => exact .inr (.inl e)
    · exact (ha.settled k hk).imp_right .inr
  doubted := by
    intro k hk
    rw [verdict?_cons] at hk
    split at hk
    · cases hk
    · exact ha.doubted k hk
  below := fun m hm => (ha.below m hm).imp_right fun hn c hc =>
    (hn c hc).imp_right (.imp_left fun h => visited_cons.2 (.inr h))

/-- A node gets its result after all that it needs has been looked at. -/
lemma Accounted.settle {s : Store} {v : Verdicts} {h : NodeHandle} {ok : Bool}
    (ha : Accounted b (fun k => k = h ∨ P k) (s, v)) (hl : s.contains h = true)
    (hunmarked : b.isValidated h = false) (hlead : LeadsFrom b P h)
    (hok : ok = true → ∀ c ∈ b.needs h, s.isValidated c = true ∨ c = h ∨ P c)
    (hno : ok = false → b.Doubtful h) : Accounted b P (settle h (ok, s, v)).2 where
  same := (unmarked_settle h ok s v).trans ha.same
  keeps := fun k hk => (isValidated_settle hl k).2 (.inl (ha.keeps k hk))
  entered := fun k hk => visited_settle.2 (.inr (ha.entered k (.inr hk)))
  settled := by
    intro k hk
    change verdict? ((h, ok) :: v) k = some true at hk
    rw [verdict?_cons] at hk
    rw [isValidated_settle hl]
    split at hk
    · next e => exact .inl (.inr ⟨Option.some.inj hk, e⟩)
    · next e => exact (ha.settled k hk).imp .inl fun h => h.resolve_left e
  doubted := by
    intro k hk
    change verdict? ((h, ok) :: v) k = some false at hk
    rw [verdict?_cons] at hk
    split at hk
    · next e => exact e ▸ hno (Option.some.inj hk)
    · exact ha.doubted k hk
  below := by
    intro m hm
    rcases (isValidated_settle hl m).1 hm with hm | ⟨hok', rfl⟩
    · exact (ha.below m hm).imp_right fun hn c hc => (hn c hc).imp
        (fun e => (isValidated_settle hl c).2 (.inl e))
        (.imp_left fun e => visited_settle.2 (.inr e))
    · refine .inr fun c hc => ?_
      rw [isValidated_settle hl, visited_settle]
      rcases hok hok' c hc with hc | rfl | hc
      · exact .inl (.inl hc)
      · exact .inl (.inr ⟨hok', rfl⟩)
      · exact .inr ⟨.inr (ha.entered c (.inr hc)), hlead c hc hunmarked⟩

/-- What is shown for one node holds for some nodes one after another. -/
lemma accounted_passAll {depth : Nat}
    (hp : ∀ c st, Enough depth st → Accounted b P st → LeadsFrom b P c →
      Accounted b P (pass depth c st).2 ∧ Justified b P (pass depth c st).2 c (pass depth c st).1)
    (cs : List NodeHandle) (r : Bool × State) (he : Enough depth r.2) (ha : Accounted b P r.2)
    (hlead : ∀ c ∈ cs, LeadsFrom b P c) :
    Accounted b P (passAll depth cs r).2 ∧
      ((passAll depth cs r).1 = true →
        r.1 = true ∧ ∀ c ∈ cs, (passAll depth cs r).2.1.isValidated c = true ∨ P c) ∧
      ((passAll depth cs r).1 = false →
        r.1 = false ∨ ∃ c ∈ cs, b.isValidated c = false ∧ b.Doubtful c) := by
  induction cs generalizing r with
  | nil => exact ⟨ha, fun h => ⟨h, fun c hc => by cases hc⟩, .inl⟩
  | cons c rest ih =>
    obtain ⟨hc, hj⟩ := hp c r.2 he ha (hlead c List.mem_cons_self)
    have hsearch := searched_pass depth c r.2 he
    have he' := he.of_searched hsearch
    obtain ⟨hall, htrue, hfalse⟩ := ih (r.1 && (pass depth c r.2).1, (pass depth c r.2).2) he' hc
      fun k hk => hlead k (List.mem_cons_of_mem _ hk)
    -- the marks that are made for the first node stay while the others are looked at
    obtain ⟨_, -, hrest⟩ := searched_passAll (searched_pass depth) rest
      (r.1 && (pass depth c r.2).1, (pass depth c r.2).2) he'
    refine ⟨hall, fun h => ?_, fun h => ?_⟩
    · obtain ⟨hok, hmarked⟩ := htrue h
      rw [Bool.and_eq_true] at hok
      refine ⟨hok.1, fun k hk => ?_⟩
      rcases List.mem_cons.1 hk with rfl | hk
      · exact (hj.marked hok.2).imp_left (hrest.keeps k)
      · exact hmarked k hk
    · rcases hfalse h with hok | ⟨k, hk, hdoubt⟩
      · rw [Bool.and_eq_false_iff] at hok
        exact hok.imp_right fun e => ⟨c, List.mem_cons_self, hj.doubtful e⟩
      · exact .inr ⟨k, List.mem_cons_of_mem _ hk, hdoubt⟩

/-- Every pass accounts for the marks it makes. -/
theorem accounted_pass (depth : Nat) (P : NodeHandle → Prop) (h : NodeHandle) (st : State)
    (he : Enough depth st) (ha : Accounted b P st) (hlead : LeadsFrom b P h) :
    Accounted b P (pass depth h st).2 ∧ Justified b P (pass depth h st).2 h (pass depth h st).1 := by
  induction depth generalizing P h st with
  | zero => exact (Enough.not_zero he).elim
  | succ depth ih =>
    obtain ⟨s, v⟩ := st
    rw [pass_succ]
    cases hn : s.get? h with
    | none =>
      have hp : s.passes h = false := by rw [Store.passes, hn]; rfl
      have hv : s.isValidated h = false := by rw [isValidated, hn]; rfl
      rw [ha.passes] at hp
      refine ⟨ha, ⟨fun e => ?_, fun _ => ⟨ha.not_marked hv, h, .refl, hp⟩⟩⟩
      cases e
    | some n =>
      have hv : s.isValidated h = n.validated := by rw [isValidated, hn]; rfl
      cases hm : n.validated with
      | true =>
        simp only [hm, if_true]
        refine ⟨ha, ⟨fun _ => .inl (hv.trans hm), fun e => ?_⟩⟩
        cases e
      | false =>
        have hunmarked := ha.not_marked (hv.trans hm)
        simp only [hm, Bool.false_eq_true, if_false]
        cases hr : verdict? v h with
        | some ok =>
          refine ⟨ha, fun e => ha.settled h ?_, fun e => ⟨hunmarked, ha.doubted h ?_⟩⟩ <;>
            exact e ▸ hr
        | none =>
          have hl : s.contains h = true := contains_iff.2 ⟨n, hn⟩
          have hneeds : s.neededBy h n = b.needs h := by
            rw [← ha.needs, Store.needs, hn]
            rfl
          have hpasses : (s.checkNode h n).value = b.passes h := by
            rw [← ha.passes, Store.passes, hn]
            rfl
          have he' : Enough depth (s, (h, true) :: v) := he.enter hl hr
          rw [hneeds, hpasses]
          -- while the node is looked at, it leads to all that it needs
          obtain ⟨hall, htrue, hfalse⟩ := accounted_passAll (ih _) (b.needs h)
            (b.passes h, s, (h, true) :: v) he' (ha.enter h) fun c hc k hk hcv => by
              have hhc : b.LeadsTo h c := ⟨hc, hcv⟩
              rcases hk with rfl | hk
              · exact .single hhc
              · exact (hlead k hk hunmarked).tail hhc
          obtain ⟨_, -, hsearch⟩ := searched_passAll (searched_pass depth) (b.needs h)
            (b.passes h, s, (h, true) :: v) he'
          generalize passAll depth (b.needs h) (b.passes h, s, (h, true) :: v) = r at hall htrue hfalse hsearch
          obtain ⟨ok, s', v'⟩ := r
          have hl' : s'.contains h = true := by
            rw [hsearch.contains]
            exact hl
          have hdoubt : ok = false → b.Doubtful h := by
            intro e
            rcases hfalse e with hp | ⟨c, hc, hcv, hcd⟩
            · exact ⟨h, .refl, hp⟩
            · exact hcd.head ⟨hc, hcv⟩
          exact ⟨hall.settle hl' hunmarked hlead (fun e => (htrue e).2) hdoubt,
            fun e => .inl ((isValidated_settle hl' h).2 (.inr ⟨e, rfl⟩)),
            fun e => ⟨hunmarked, hdoubt e⟩⟩

end Validating

namespace Store

open Validating

/-- A node that is found valid is marked after that. -/
lemma isValidated_validate {s : Store} {h : NodeHandle} (hv : (s.validate h).value.1 = true) :
    (s.validate h).value.2.isValidated h = true := by
  rw [value_validate] at hv ⊢
  obtain ⟨-, hj⟩ := accounted_pass (s.bound + 1) (fun _ => False) h (s, []) (.start s) (.start s)
    fun _ hk => hk.elim
  exact (hj.marked hv).resolve_right id

lemma isValidated_validate_of_isValidated {s : Store} (h : NodeHandle) {k : NodeHandle}
    (hk : s.isValidated k = true) : (s.validate h).value.2.isValidated k = true := by
  rw [value_validate]
  exact (searched_pass (s.bound + 1) h (s, []) (.start s)).keeps k hk

/-- What a node needs that is marked by a validation is marked after that, unless it leads back to the node and is not
valid. -/
theorem needs_of_isValidated_validate {s : Store} {h m : NodeHandle} (hm : s.isValidated m = false)
    (hv : (s.validate h).value.2.isValidated m = true) {c : NodeHandle} (hc : s.Needs m c) :
    (s.validate h).value.2.isValidated c = true ∨
      TransGen s.LeadsTo c m ∧ (s.validate c).value.1 = false := by
  have hkeep := isValidated_validate_of_isValidated (s := s) h (k := c)
  rw [value_validate] at hv hkeep ⊢
  obtain ⟨ha, -⟩ := accounted_pass (s.bound + 1) (fun _ => False) h (s, []) (.start s) (.start s)
    fun _ hk => hk.elim
  rcases ha.below m hv with hm' | hbelow
  · rw [hm] at hm'
    cases hm'
  rcases hbelow c hc with hc | ⟨⟨ok, hok⟩, hlead⟩
  · exact .inl hc
  cases ok with
  | true => exact .inl ((ha.settled c hok).resolve_right id)
  | false =>
    cases hcv : s.isValidated c with
    | true => exact .inl (hkeep hcv)
    | false => exact .inr ⟨hlead, (ha.doubted c hok).not_valid hcv⟩

end Store

end Semdoc
