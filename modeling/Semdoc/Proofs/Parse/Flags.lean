import Mathlib.Data.List.Induction
import Mathlib.Order.Bounds.Basic
import Mathlib.Tactic.Lemma
import Semdoc.Parse.Scope

/-!
# Flags of scopes

A flag is set at the depth of the innermost node and is forgotten with this node.  The flags of a scope stand in one
list, the deeper ones first and each at most once for a depth.  So the list holds what was last set for each flag at
each depth since the node there was put on the stack, and the first entry for a flag is the innermost one.  A scope
and its forks go their own ways from where the fork was made.
-/

namespace Semdoc

variable {σ : Type}

/-- What is done with a scope. -/
inductive ScopeAction where
  | push (h : NodeHandle)
  | pop
  | setFlag (flag : ScopeFlag) (value : Bool)
  /-- Goes on in a fork. -/
  | fork
  deriving DecidableEq

/-- The depth at which a flag was set, and the flag. -/
def FlagEntry.place (e : FlagEntry) : Nat × ScopeFlag := (e.depth, e.flag)

namespace Scope

def act (sc : Scope σ) : ScopeAction → Scope σ
  | .push h => sc.push h
  | .pop => sc.pop.value.2
  | .setFlag flag value => sc.setFlag flag value
  | .fork => sc.fork

def run (sc : Scope σ) (actions : List ScopeAction) : Scope σ := actions.foldl act sc

lemma run_append (sc : Scope σ) (xs ys : List ScopeAction) : sc.run (xs ++ ys) = (sc.run xs).run ys :=
  List.foldl_append

lemma run_concat (sc : Scope σ) (xs : List ScopeAction) (a : ScopeAction) :
    sc.run (xs ++ [a]) = (sc.run xs).act a :=
  run_append sc xs [a]

variable {sc : Scope σ} {f : ScopeFlag} {v : Bool} {d : Nat} {a : ScopeAction}
  {history : List ScopeAction}

lemma act_pop_of_le (h : sc.depth ≤ sc.floor) : sc.act .pop = sc := by
  rw [act, pop, if_pos h]
  rfl

lemma act_pop_of_lt (h : sc.floor < sc.depth) :
    sc.act .pop = { sc with
      nodes := sc.nodes.tail
      flags := sc.flags.dropWhile fun e => sc.depth ≤ e.depth } := by
  rw [act, pop, if_neg (Nat.not_le.2 h)]
  rfl

lemma depth_act_pop (h : sc.floor < sc.depth) : (sc.act .pop).depth = sc.depth - 1 := by
  rw [act_pop_of_lt h]
  exact List.length_tail

/-! ## What has been set -/

/-- The node at a depth stays on the stack, and a flag is not set again at this depth. -/
def Keeps (sc : Scope σ) (f : ScopeFlag) (d : Nat) (actions : List ScopeAction) : Prop :=
  (∀ p, p <+: actions → d ≤ (sc.run p).depth) ∧
    ∀ p v, p ++ [.setFlag f v] <+: actions → (sc.run p).depth ≠ d

/-- What was last set for a flag at a depth since the node at this depth was put on the stack. -/
def SetSince (sc : Scope σ) (history : List ScopeAction) (f : ScopeFlag) (d : Nat) (v : Bool) : Prop :=
  ∃ before after, history = before ++ .setFlag f v :: after ∧ (sc.run before).depth = d ∧
    ((sc.run before).setFlag f v).Keeps f d after

lemma keeps_nil (h : d ≤ sc.depth) : sc.Keeps f d [] :=
  ⟨fun _ hp => List.prefix_nil.1 hp ▸ h, fun p v hp => by simp at hp⟩

lemma keeps_concat {actions : List ScopeAction} :
    sc.Keeps f d (actions ++ [a]) ↔ sc.Keeps f d actions ∧ d ≤ (sc.run (actions ++ [a])).depth ∧
      ∀ w, a = .setFlag f w → (sc.run actions).depth ≠ d := by
  simp only [Keeps, List.prefix_concat_iff, or_imp, forall_and, forall_eq]
  constructor
  · rintro ⟨⟨hend, hstays⟩, hagain, hnot⟩
    exact ⟨⟨hstays, hnot⟩, hend, fun w hw => hagain _ w (hw ▸ rfl)⟩
  · rintro ⟨⟨hstays, hnot⟩, hend, hagain⟩
    refine ⟨⟨hend, hstays⟩, fun p w hp => ?_, hnot⟩
    obtain ⟨rfl, hw⟩ := List.append_inj' hp rfl
    exact hagain w (List.singleton_inj.1 hw).symm

/-- What has been set for a flag at a depth after one action more. -/
lemma setSince_concat :
    sc.SetSince (history ++ [a]) f d v ↔ (a = .setFlag f v ∧ (sc.run history).depth = d) ∨
      (sc.SetSince history f d v ∧ d ≤ (sc.run (history ++ [a])).depth ∧
        ∀ w, a = .setFlag f w → (sc.run history).depth ≠ d) := by
  constructor
  · rintro ⟨before, after, heq, hd, hkeeps⟩
    obtain rfl | ⟨after, b, rfl⟩ := after.eq_nil_or_concat
    · obtain ⟨rfl, hb⟩ := List.append_inj' heq rfl
      exact .inl ⟨List.singleton_inj.1 hb, hd⟩
    · rw [List.concat_eq_append] at heq hkeeps
      rw [← List.cons_append, ← List.append_assoc] at heq
      obtain ⟨rfl, hb⟩ := List.append_inj' heq rfl
      cases List.singleton_inj.1 hb
      obtain ⟨hkeeps, hend, hagain⟩ := keeps_concat.1 hkeeps
      refine .inr ⟨⟨before, after, rfl, hd, hkeeps⟩, ?_, ?_⟩
      · rwa [List.append_assoc, List.cons_append, run_append]
      · rwa [run_append]
  · rintro (⟨rfl, hd⟩ | ⟨⟨before, after, rfl, hd, hkeeps⟩, hend, hagain⟩)
    · exact ⟨history, [], rfl, hd, keeps_nil (Nat.le_of_eq hd.symm)⟩
    · refine ⟨before, after ++ [a], by simp, hd, keeps_concat.2 ⟨hkeeps, ?_, ?_⟩⟩
      · rwa [List.append_assoc, List.cons_append, run_append] at hend
      · rwa [run_append] at hagain

/-! ## What is in the list -/

/-- The deeper flags stand first, and each flag at most once for a depth. -/
def Layered (entries : List FlagEntry) : Prop :=
  (entries.map FlagEntry.place).Pairwise fun x y => y.1 ≤ x.1 ∧ x ≠ y

section Layered

variable {e e' : FlagEntry} {entries entries' inner outer : List FlagEntry}

lemma Layered.tail (h : Layered (e :: entries)) : Layered entries := h.of_cons

lemma Layered.head (h : Layered (e :: entries)) (he' : e' ∈ entries) :
    e'.depth ≤ e.depth ∧ e.place ≠ e'.place :=
  List.rel_of_pairwise_cons h (List.mem_map_of_mem he')

lemma Layered.sublist (h : Layered entries) (hs : entries'.Sublist entries) : Layered entries' :=
  List.Pairwise.sublist (hs.map _) h

lemma Layered.place_ne (h : Layered (inner ++ e :: outer)) (he' : e' ∈ inner ∨ e' ∈ outer) :
    e'.place ≠ e.place := by
  rw [Layered, List.map_append, List.map_cons, List.pairwise_append] at h
  obtain he' | he' := he'
  · exact (h.2.2 _ (List.mem_map_of_mem he') _ List.mem_cons_self).2
  · exact ((List.rel_of_pairwise_cons h.2.1 (List.mem_map_of_mem he')).2).symm

/-- Taking off what is at least so deep leaves what is less deep. -/
lemma Layered.mem_dropWhile_iff (h : Layered entries) :
    (e ∈ entries.dropWhile fun e => d ≤ e.depth) ↔ e ∈ entries ∧ e.depth < d := by
  induction entries with
  | nil => simp
  | cons e' r ih =>
    rw [List.dropWhile_cons]
    split
    · next hd =>
      rw [ih h.tail, List.mem_cons]
      have hne : e.depth < d → e ≠ e' := by
        rintro hlt rfl
        exact absurd (of_decide_eq_true hd) (Nat.not_le.2 hlt)
      exact ⟨fun he => ⟨.inr he.1, he.2⟩, fun he => ⟨he.1.resolve_left (hne he.2), he.2⟩⟩
    · next hd =>
      have hlt : e'.depth < d := Nat.not_le.1 fun hle => hd (decide_eq_true hle)
      refine ⟨fun he => ⟨he, ?_⟩, fun he => he.1⟩
      obtain rfl | he := List.mem_cons.1 he
      · exact hlt
      · exact Nat.lt_of_le_of_lt (h.head he).1 hlt

lemma exists_of_replaceFlag (h : replaceFlag d f v entries = some entries') :
    ∃ inner w outer, entries = inner ++ ⟨d, f, w⟩ :: outer ∧ entries' = inner ++ ⟨d, f, v⟩ :: outer ∧
      ∀ e ∈ inner, d ≤ e.depth := by
  induction entries generalizing entries' with
  | nil => cases h
  | cons e r ih =>
    rw [replaceFlag] at h
    split at h
    · cases h
    · next hge =>
      split at h
      · next he =>
        obtain ⟨hf, hd⟩ := Bool.and_eq_true_iff.1 he
        cases of_decide_eq_true hf
        cases of_decide_eq_true hd
        cases h
        exact ⟨[], e.value, r, rfl, rfl, List.forall_mem_nil _⟩
      · obtain ⟨r', hr, rfl⟩ := Option.map_eq_some_iff.1 h
        obtain ⟨inner, w, outer, rfl, rfl, hinner⟩ := ih hr
        exact ⟨e :: inner, w, outer, rfl, rfl, List.forall_mem_cons.2 ⟨Nat.not_lt.1 hge, hinner⟩⟩

lemma place_ne_of_replaceFlag (hl : Layered entries) (h : replaceFlag d f v entries = none) :
    ∀ e ∈ entries, e.place ≠ (d, f) := by
  induction entries with
  | nil => exact List.forall_mem_nil _
  | cons e r ih =>
    rw [replaceFlag] at h
    split at h
    · -- all that follow are not deeper either
      next hlt =>
      intro e' he' heq
      have hle : e'.depth ≤ e.depth := by
        obtain rfl | he' := List.mem_cons.1 he'
        · exact Nat.le_refl _
        · exact (hl.head he').1
      exact absurd (congrArg Prod.fst heq) (Nat.ne_of_lt (Nat.lt_of_le_of_lt hle hlt))
    · split at h
      · cases h
      · next he =>
        refine List.forall_mem_cons.2 ⟨fun heq => he ?_, ih hl.tail (Option.map_eq_none_iff.1 h)⟩
        have hd : e.depth = d := congrArg Prod.fst heq
        have hf : e.flag = f := congrArg Prod.snd heq
        rw [decide_eq_true hf, decide_eq_true hd, Bool.and_self]

end Layered

/-- After a flag has been set, there is an entry for it at the depth, and all others are as before. -/
lemma mem_flags_setFlag_iff (hl : Layered sc.flags) {e : FlagEntry} :
    e ∈ (sc.setFlag f v).flags ↔
      e = ⟨sc.depth, f, v⟩ ∨ (e ∈ sc.flags ∧ e.place ≠ (sc.depth, f)) := by
  rw [setFlag]
  cases hr : replaceFlag sc.depth f v sc.flags with
  | none =>
    have hne := place_ne_of_replaceFlag hl hr
    rw [Option.getD_none, List.mem_cons, and_iff_left_of_imp (hne e)]
  | some entries =>
    obtain ⟨inner, w, outer, hflags, rfl, -⟩ := exists_of_replaceFlag hr
    rw [hflags] at hl ⊢
    rw [Option.getD_some, List.mem_append, List.mem_cons, List.mem_append, List.mem_cons]
    constructor
    · rintro (he | rfl | he)
      · exact .inr ⟨.inl he, hl.place_ne (.inl he)⟩
      · exact .inl rfl
      · exact .inr ⟨.inr (.inr he), hl.place_ne (.inr he)⟩
    · rintro (rfl | ⟨he | rfl | he, hne⟩)
      · exact .inr (.inl rfl)
      · exact .inl he
      · exact absurd rfl hne
      · exact .inr (.inr he)

lemma layered_setFlag (hl : Layered sc.flags) (hd : ∀ e ∈ sc.flags, e.depth ≤ sc.depth) :
    Layered (sc.setFlag f v).flags := by
  rw [setFlag]
  cases hr : replaceFlag sc.depth f v sc.flags with
  | none =>
    refine List.pairwise_cons.2 ⟨List.forall_mem_map.2 fun e he => ⟨hd e he, ?_⟩, hl⟩
    exact (place_ne_of_replaceFlag hl hr e he).symm
  | some entries =>
    obtain ⟨inner, w, outer, hflags, rfl, -⟩ := exists_of_replaceFlag hr
    rw [hflags, Layered, List.map_append, List.map_cons] at hl
    rwa [Option.getD_some, Layered, List.map_append, List.map_cons]

/-- What holds of a scope whatever is done with it. -/
structure Nested (sc : Scope σ) : Prop where
  layered : Layered sc.flags
  depth_le : ∀ e ∈ sc.flags, e.depth ≤ sc.depth
  floor_le : sc.floor ≤ sc.depth

namespace Nested

lemma empty (l : Limits) : (Scope.empty l : Scope σ).Nested where
  layered := .nil
  depth_le := List.forall_mem_nil _
  floor_le := Nat.le_refl _

/-- An action may leave the list as it is. -/
lemma mem_flags_iff_of_eq (h : sc.Nested) {e : FlagEntry} (hflags : (sc.act a).flags = sc.flags)
    (hd : sc.depth ≤ (sc.act a).depth) (ha : ∀ f v, a ≠ .setFlag f v) :
    e ∈ (sc.act a).flags ↔ (a = .setFlag e.flag e.value ∧ sc.depth = e.depth) ∨
      (e ∈ sc.flags ∧ e.depth ≤ (sc.act a).depth ∧
        ∀ w, a = .setFlag e.flag w → sc.depth ≠ e.depth) := by
  rw [hflags]
  constructor
  · exact fun he => .inr ⟨he, (h.depth_le e he).trans hd, fun w hw => (ha _ _ hw).elim⟩
  · rintro (⟨hw, -⟩ | ⟨he, -⟩)
    · exact (ha _ _ hw).elim
    · exact he

/-- What an action leaves in the list of flags and what it adds. -/
lemma mem_flags_act_iff (h : sc.Nested) (a : ScopeAction) {e : FlagEntry} :
    e ∈ (sc.act a).flags ↔ (a = .setFlag e.flag e.value ∧ sc.depth = e.depth) ∨
      (e ∈ sc.flags ∧ e.depth ≤ (sc.act a).depth ∧
        ∀ w, a = .setFlag e.flag w → sc.depth ≠ e.depth) := by
  cases a with
  | push n => exact h.mem_flags_iff_of_eq rfl (Nat.le_succ _) nofun
  | fork => exact h.mem_flags_iff_of_eq rfl (Nat.le_refl _) nofun
  | pop =>
    obtain hlt | hle := Nat.lt_or_ge sc.floor sc.depth
    · have hd := depth_act_pop hlt
      have hmem : e ∈ (sc.act .pop).flags ↔ e ∈ sc.flags ∧ e.depth < sc.depth := by
        rw [act_pop_of_lt hlt, h.layered.mem_dropWhile_iff]
      rw [hmem]
      constructor
      · exact fun he => .inr ⟨he.1, by omega, nofun⟩
      · rintro (⟨hw, -⟩ | ⟨he, hle, -⟩)
        · cases hw
        · exact ⟨he, by omega⟩
    · have hsame := act_pop_of_le hle
      exact h.mem_flags_iff_of_eq (by rw [hsame]) (by rw [hsame]) nofun
  | setFlag f v =>
    rw [act, mem_flags_setFlag_iff h.layered]
    constructor
    · rintro (rfl | ⟨he, hne⟩)
      · exact .inl ⟨rfl, rfl⟩
      · refine .inr ⟨he, h.depth_le e he, fun w hw hd => hne ?_⟩
        cases hw
        exact Prod.ext hd.symm rfl
    · rintro (⟨hw, hd⟩ | ⟨he, -, hne⟩)
      · cases hw
        rw [hd]
        exact .inl rfl
      · exact .inr ⟨he, fun hp => hne v (congrArg (ScopeAction.setFlag · v) (congrArg Prod.snd hp).symm) (congrArg Prod.fst hp).symm⟩

lemma act (h : sc.Nested) (a : ScopeAction) : (sc.act a).Nested where
  layered := by
    cases a with
    | push | fork => exact h.layered
    | setFlag => exact layered_setFlag h.layered h.depth_le
    | pop =>
      obtain hlt | hle := Nat.lt_or_ge sc.floor sc.depth
      · rw [act_pop_of_lt hlt]
        exact h.layered.sublist (List.dropWhile_sublist _)
      · rw [act_pop_of_le hle]
        exact h.layered
  depth_le := by
    intro e he
    obtain ⟨rfl, hd⟩ | ⟨-, hle, -⟩ := (h.mem_flags_act_iff a).1 he
    · exact Nat.le_of_eq hd.symm
    · exact hle
  floor_le := by
    cases a with
    | push => exact Nat.le_succ_of_le h.floor_le
    | fork => exact Nat.le_refl _
    | setFlag => exact h.floor_le
    | pop =>
      obtain hlt | hle := Nat.lt_or_ge sc.floor sc.depth
      · have hd := depth_act_pop hlt
        have hfloor : (sc.act .pop).floor = sc.floor := by rw [act_pop_of_lt hlt]
        omega
      · rw [act_pop_of_le hle]
        exact h.floor_le

lemma run (h : sc.Nested) (actions : List ScopeAction) : (sc.run actions).Nested := by
  induction actions using List.reverseRecOn with
  | nil => exact h
  | append_singleton actions a ih => exact run_concat sc actions a ▸ ih.act a

lemma floor_le_act (h : sc.Nested) (a : ScopeAction) : sc.floor ≤ (sc.act a).floor := by
  cases a with
  | push | setFlag => exact Nat.le_refl _
  | fork => exact h.floor_le
  | pop =>
    obtain hlt | hle := Nat.lt_or_ge sc.floor sc.depth
    · rw [act_pop_of_lt hlt]
    · rw [act_pop_of_le hle]

/-- Nothing below the floor is taken off. -/
lemma floor_le_depth_run (h : sc.Nested) (actions : List ScopeAction) :
    sc.floor ≤ (sc.run actions).depth := by
  refine Nat.le_trans ?_ (h.run actions).floor_le
  induction actions using List.reverseRecOn with
  | nil => exact Nat.le_refl _
  | append_singleton actions a ih =>
    rw [run_concat]
    exact ih.trans ((h.run actions).floor_le_act a)

end Nested

/-- The list holds what was last set for each flag at each depth of the stack. -/
lemma mem_flags_run_iff (h : sc.Nested) (hflags : sc.flags = []) (history : List ScopeAction) {e : FlagEntry} :
    e ∈ (sc.run history).flags ↔ sc.SetSince history e.flag e.depth e.value := by
  induction history using List.reverseRecOn with
  | nil =>
    have hnone : ¬ sc.SetSince [] e.flag e.depth e.value := by
      rintro ⟨before, after, heq, -⟩
      simp at heq
    exact iff_of_false (by rw [run, List.foldl_nil, hflags]; exact List.not_mem_nil) hnone
  | append_singleton history a ih =>
    rw [setSince_concat, run_concat, (h.run history).mem_flags_act_iff, ih]

/-- A flag has the value of its deepest entry. -/
lemma flag_of_layered (hl : Layered sc.flags) (f : ScopeFlag) :
    (∃ e ∈ sc.flags, e.flag = f ∧ (∀ e' ∈ sc.flags, e'.flag = f → e'.depth ≤ e.depth) ∧ sc.flag f = e.value) ∨
      (∀ e ∈ sc.flags, e.flag ≠ f) ∧ sc.flag f = false := by
  rw [flag]
  cases hfind : sc.flags.find? fun e => e.flag = f with
  | none =>
    refine .inr ⟨fun e he hf => ?_, rfl⟩
    exact List.find?_eq_none.1 hfind e he (decide_eq_true hf)
  | some e =>
    obtain ⟨hf, inner, outer, heq, hinner⟩ := List.find?_eq_some_iff_append.1 hfind
    have he : e ∈ sc.flags := heq ▸ List.mem_append_right _ List.mem_cons_self
    refine .inl ⟨e, he, of_decide_eq_true hf, fun e' he' hf' => ?_, rfl⟩
    rw [heq] at he'
    rw [heq, Layered, List.map_append, List.pairwise_append] at hl
    obtain he' | he' := List.mem_append.1 he'
    · simpa [hf'] using hinner e' he'
    · obtain rfl | he' := List.mem_cons.1 he'
      · exact Nat.le_refl _
      · exact (Layered.head hl.2.1 he').1

/-! ## What is restored -/

/-- What is put on the stack is taken off again, in reverse order. -/
inductive Balanced : List ScopeAction → Prop
  | nil : Balanced []
  | setFlag {f : ScopeFlag} {v : Bool} {rest : List ScopeAction} (h : Balanced rest) :
      Balanced (.setFlag f v :: rest)
  | nest {n : NodeHandle} {inner rest : List ScopeAction} (hinner : Balanced inner) (h : Balanced rest) :
      Balanced (.push n :: inner ++ .pop :: rest)

/-- A scope differs from another one at most in the flags at the depth of the innermost node. -/
def SameAbove (sc sc' : Scope σ) : Prop :=
  sc' = { sc with flags := sc'.flags } ∧
    (sc'.flags.dropWhile fun e => sc.depth ≤ e.depth) = sc.flags.dropWhile fun e => sc.depth ≤ e.depth

lemma SameAbove.trans {sc' sc'' : Scope σ} (h : sc.SameAbove sc') (h' : sc'.SameAbove sc'') :
    sc.SameAbove sc'' := by
  have hd : sc'.depth = sc.depth := (congrArg depth h.1).trans rfl
  refine ⟨h'.1.trans ?_, ?_⟩
  · rw [h.1]
  · rw [← h.2, ← hd, h'.2]

lemma sameAbove_setFlag (sc : Scope σ) (f : ScopeFlag) (v : Bool) : sc.SameAbove (sc.setFlag f v) := by
  refine ⟨rfl, ?_⟩
  have hdrop : ∀ (e : FlagEntry) outer, sc.depth = e.depth →
      ((e :: outer).dropWhile fun e => sc.depth ≤ e.depth) = outer.dropWhile fun e => sc.depth ≤ e.depth :=
    fun e outer he => List.dropWhile_cons_of_pos (decide_eq_true (Nat.le_of_eq he))
  rw [setFlag]
  cases hr : replaceFlag sc.depth f v sc.flags with
  | none => exact hdrop _ _ rfl
  | some entries =>
    obtain ⟨inner, w, outer, hflags, rfl, hinner⟩ := exists_of_replaceFlag hr
    have hall : ∀ e ∈ inner, decide (sc.depth ≤ e.depth) = true :=
      fun e he => decide_eq_true (hinner e he)
    rw [Option.getD_some, hflags, List.dropWhile_append_of_pos hall, List.dropWhile_append_of_pos hall,
      hdrop _ _ rfl, hdrop _ _ rfl]

/-- With the innermost node goes all that may differ. -/
lemma SameAbove.pop {sc' : Scope σ} {n : NodeHandle} (h : (sc.push n).SameAbove sc') (hsc : sc.Nested) :
    sc'.act .pop = sc := by
  have hd : sc'.depth = sc.depth + 1 := (congrArg depth h.1).trans rfl
  have hfloor : sc'.floor = sc.floor := (congrArg floor h.1).trans rfl
  have hflags : (sc'.flags.dropWhile fun e => sc'.depth ≤ e.depth) = sc.flags := by
    have hall : ∀ e ∈ sc.flags, ¬ sc.depth + 1 ≤ e.depth :=
      fun e he => Nat.not_le.2 (Nat.lt_succ_of_le (hsc.depth_le e he))
    have hkept : (sc.flags.dropWhile fun e => sc.depth + 1 ≤ e.depth) = sc.flags := by
      cases hcases : sc.flags with
      | nil => rfl
      | cons e r =>
        refine List.dropWhile_cons_of_neg ?_
        simpa using hall e (hcases ▸ List.mem_cons_self)
    rw [hd]
    exact h.2.trans hkept
  rw [act_pop_of_lt (by have := hsc.floor_le; omega), hflags, h.1]
  rfl

lemma Balanced.sameAbove {b : List ScopeAction} (hb : Balanced b) (h : sc.Nested) :
    sc.SameAbove (sc.run b) := by
  induction hb generalizing sc with
  | nil => exact ⟨rfl, rfl⟩
  | @setFlag f v rest _ ih => exact (sc.sameAbove_setFlag f v).trans (ih (h.act (.setFlag f v)))
  | @nest n inner rest _ _ ihinner ih =>
    have hpop : ((sc.push n).run inner).act .pop = sc := (ihinner (h.act (.push n))).pop h
    have hrun : sc.run (.push n :: inner ++ .pop :: rest) = sc.run rest := by
      rw [run_append]
      exact congrArg (run · rest) hpop
    exact hrun ▸ ih h

/-- When a node has been taken off the stack again all is as before. -/
lemma Balanced.run_nest {b : List ScopeAction} (hb : Balanced b) (h : sc.Nested) (n : NodeHandle) :
    sc.run (.push n :: b ++ [.pop]) = sc := by
  rw [run_concat]
  exact (hb.sameAbove (h.act (.push n))).pop h

end Scope

/-! ## Scopes and their forks -/

/-- An action on one of several scopes, which are numbered.  A fork gets the next number. -/
structure ScopeStep where
  scope : Nat
  action : ScopeAction

namespace ScopeStep

/-- What an action makes of that which belongs to its scope.  What it makes for a fork is added, and all that belongs
to the scope itself stays. -/
def extend {α : Type} (act : α → ScopeAction → α) (all : List α) (x : ScopeStep) : List α :=
  match x.action with
  | .fork => all ++ (all[x.scope]?.map (act · .fork)).toList
  | a => all.modify x.scope (act · a)

/-- The scopes after some steps from a new one. -/
def scopes (σ : Type) (l : Limits) (steps : List ScopeStep) : List (Scope σ) :=
  steps.foldl (extend Scope.act) [.empty l]

/-- What has been done with each scope, where a fork takes over what was done before it was made. -/
def histories (steps : List ScopeStep) : List (List ScopeAction) :=
  steps.foldl (extend fun history a => history ++ [a]) [[]]

/-- What is done with the scope of a number itself. -/
def doneIn (i : Nat) (steps : List ScopeStep) : List ScopeAction :=
  steps.filterMap fun x => if x.scope = i ∧ x.action ≠ .fork then some x.action else none

variable {α β : Type}

/-- A step does the same to what all things are mapped to. -/
lemma map_extend {g : α → β} {act : α → ScopeAction → α} {act' : β → ScopeAction → β}
    (hg : ∀ y a, g (act y a) = act' (g y) a) (all : List α) (x : ScopeStep) :
    (extend act all x).map g = extend act' (all.map g) x := by
  obtain ⟨i, a⟩ := x
  have hmodify : ∀ a, (all.modify i (act · a)).map g = (all.map g).modify i (act' · a) := by
    intro a
    refine List.ext_getElem? fun j => ?_
    simp only [List.getElem?_map, List.getElem?_modify]
    cases all[j]? with
    | none => rfl
    | some y =>
      simp only [Option.map_some, Option.map_eq_map, Option.some.injEq]
      split
      · exact hg y a
      · rfl
  cases a with
  | fork =>
    simp only [extend, List.map_append, List.getElem?_map]
    cases all[i]? with
    | none => rfl
    | some y => simp [hg]
  | push n => exact hmodify _
  | pop => exact hmodify _
  | setFlag f v => exact hmodify _

lemma scopes_eq_map (l : Limits) (steps : List ScopeStep) :
    scopes σ l steps = (histories steps).map (Scope.run (.empty l)) := by
  have h : ∀ all : List (List ScopeAction),
      steps.foldl (extend Scope.act) (all.map (Scope.run (.empty l : Scope σ))) =
        (steps.foldl (extend fun history a => history ++ [a]) all).map (Scope.run (.empty l)) := by
    induction steps with
    | nil => exact fun _ => rfl
    | cons x rest ih =>
      intro all
      rw [List.foldl_cons, List.foldl_cons, ← ih, map_extend (Scope.run_concat _)]
  exact h [[]]

lemma scopes_append (l : Limits) (steps more : List ScopeStep) :
    scopes σ l (steps ++ more) = more.foldl (extend Scope.act) (scopes σ l steps) :=
  List.foldl_append

/-- A step concerns its own scope only. -/
lemma getElem?_extend {all : List (Scope σ)} {i : Nat} {sc : Scope σ} (h : all[i]? = some sc) (x : ScopeStep) :
    (extend Scope.act all x)[i]? = some (sc.run (doneIn i [x])) := by
  obtain ⟨k, a⟩ := x
  have hmodify : ∀ a : ScopeAction, a ≠ .fork →
      (all.modify k (Scope.act · a))[i]? = some (sc.run (doneIn i [⟨k, a⟩])) := by
    intro a ha
    rw [List.getElem?_modify, h]
    obtain rfl | hne := eq_or_ne k i
    · simp [doneIn, ha, Scope.run]
    · simp [doneIn, hne, Scope.run]
  cases a with
  | fork =>
    have hlt : i < all.length := (List.getElem?_eq_some_iff.1 h).1
    rw [extend, List.getElem?_append_left hlt, h]
    simp [doneIn, Scope.run]
  | push n => exact hmodify _ nofun
  | pop => exact hmodify _ nofun
  | setFlag f v => exact hmodify _ nofun

lemma doneIn_cons (i : Nat) (x : ScopeStep) (rest : List ScopeStep) :
    doneIn i (x :: rest) = doneIn i [x] ++ doneIn i rest :=
  List.filterMap_append (l := [x])

/-- A scope after some more steps is what its own actions make of it. -/
lemma getElem?_foldl_extend {all : List (Scope σ)} {i : Nat} {sc : Scope σ} (h : all[i]? = some sc)
    (more : List ScopeStep) :
    (more.foldl (extend Scope.act) all)[i]? = some (sc.run (doneIn i more)) := by
  induction more generalizing all sc with
  | nil => exact h
  | cons x rest ih =>
    rw [List.foldl_cons, ih (getElem?_extend h x), doneIn_cons i x rest, Scope.run_append]

lemma nested_of_mem_scopes {l : Limits} {steps : List ScopeStep} {sc : Scope σ} (h : sc ∈ scopes σ l steps) :
    sc.Nested := by
  rw [scopes_eq_map] at h
  obtain ⟨history, -, rfl⟩ := List.mem_map.1 h
  exact (Scope.Nested.empty l).run history

/-- A flag has the value that was last set at the greatest depth at which it has been set since the node there was
put on the stack.  A scope depends only on what is done with itself, and when a node that was put on the stack is
taken off again, it is as it was before.  A fork begins with the flags of its scope, and nothing is taken off that
was on the stack when it was made. -/
theorem flags_scoped (l : Limits) (steps : List ScopeStep) (i : Nat) (sc : Scope σ)
    (hsc : (scopes σ l steps)[i]? = some sc) :
    (∃ history, (histories steps)[i]? = some history ∧ ∀ f,
      (∃ d v, IsGreatest {d | ∃ v, (Scope.empty l : Scope σ).SetSince history f d v} d ∧
        (Scope.empty l : Scope σ).SetSince history f d v ∧ sc.flag f = v) ∨
      (∀ d v, ¬ (Scope.empty l : Scope σ).SetSince history f d v) ∧ sc.flag f = false) ∧
    (∀ more, (scopes σ l (steps ++ more))[i]? = some (sc.run (doneIn i more))) ∧
    (∀ n b, Scope.Balanced b → sc.run (.push n :: b ++ [.pop]) = sc) ∧
    ∃ fork, scopes σ l (steps ++ [⟨i, .fork⟩]) = scopes σ l steps ++ [fork] ∧
      (∀ f, fork.flag f = sc.flag f) ∧
      ∀ more, ∃ later, (scopes σ l (steps ++ [⟨i, .fork⟩] ++ more))[(scopes σ l steps).length]? = some later ∧
        sc.depth ≤ later.depth := by
  have hn : sc.Nested := nested_of_mem_scopes (List.mem_of_getElem? hsc)
  have hfork : scopes σ l (steps ++ [⟨i, .fork⟩]) = scopes σ l steps ++ [sc.fork] := by
    rw [scopes_append, List.foldl_cons, List.foldl_nil, extend, hsc]
    rfl
  refine ⟨?_, fun more => ?_, fun n b hb => hb.run_nest hn n, sc.fork, hfork, fun f => rfl, fun more => ?_⟩
  · have hhistory := hsc
    rw [scopes_eq_map, List.getElem?_map] at hhistory
    obtain ⟨history, hi, hrun⟩ := Option.map_eq_some_iff.1 hhistory
    have hmem : ∀ f d v, (Scope.empty l : Scope σ).SetSince history f d v ↔ ⟨d, f, v⟩ ∈ sc.flags :=
      fun f d v => by rw [← hrun, Scope.mem_flags_run_iff (.empty l) rfl]
    refine ⟨history, hi, fun f => ?_⟩
    simp only [hmem]
    obtain ⟨e, he, rfl, hdeepest, hvalue⟩ | ⟨hnone, hvalue⟩ := Scope.flag_of_layered hn.layered f
    · exact .inl ⟨e.depth, e.value, ⟨⟨e.value, he⟩, fun d ⟨v, hv⟩ => hdeepest _ hv rfl⟩, he, hvalue⟩
    · exact .inr ⟨fun d v hv => hnone _ hv rfl, hvalue⟩
  · rw [scopes_append]
    exact getElem?_foldl_extend hsc more
  · have hat : (scopes σ l (steps ++ [⟨i, .fork⟩]))[(scopes σ l steps).length]? = some sc.fork := by
      rw [hfork, List.getElem?_concat_length]
    rw [scopes_append]
    exact ⟨_, getElem?_foldl_extend hat more, (hn.act .fork).floor_le_depth_run _⟩

/-- A flag is set to different values at two depths, the greater one in a fork. -/
def forkedSteps : List ScopeStep :=
  [⟨0, .push ⟨1, 1⟩⟩, ⟨0, .setFlag .postHead false⟩, ⟨0, .fork⟩, ⟨1, .push ⟨2, 1⟩⟩,
    ⟨1, .setFlag .postHead true⟩, ⟨0, .pop⟩]

theorem flags_scoped_forkedSteps :
    ∃ sc, (scopes Unit {} forkedSteps)[1]? = some sc ∧ sc.flag .postHead = true ∧
      (∃ history d, (histories forkedSteps)[1]? = some history ∧
        IsGreatest {d | ∃ v, (Scope.empty {} : Scope Unit).SetSince history .postHead d v} d ∧
        (Scope.empty {} : Scope Unit).SetSince history .postHead d true) ∧
      Scope.Balanced [.setFlag .postHead false] ∧
      sc.run [.push ⟨3, 1⟩, .setFlag .postHead false, .pop] = sc := by
  obtain ⟨⟨history, hi, hlaw⟩, -, hbalanced, -⟩ := @flags_scoped Unit {} forkedSteps 1 _ rfl
  refine ⟨_, rfl, rfl, ?_, .setFlag .nil, hbalanced _ _ (.setFlag .nil)⟩
  obtain ⟨d, v, hgreatest, hset, hv⟩ | ⟨-, hv⟩ := hlaw .postHead
  · cases hv
    exact ⟨history, d, hi, hgreatest, hset⟩
  · cases hv

end ScopeStep

end Semdoc
