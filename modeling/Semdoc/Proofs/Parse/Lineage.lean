import Mathlib.Data.List.Chain
import Mathlib.Data.List.Forall2
import Mathlib.Data.List.Perm.Subperm
import Mathlib.Tactic.Lemma
import Semdoc.Parse.Deduction

/-!
# Lineages of commands

How a scope came about is told by a lineage: commands of which each stands under the one before it,
where those that create nodes account for the types of the scope, in order and one each.  Types at the
outer end that no command creates are ambient, they were there before.  The commands that are deduced
for a scope are those in which some lineage of it ends.
-/

namespace Semdoc

variable {σ : Type}

/-- A command may appear directly under another one. -/
def Command.Admits (c : Command σ) (outer : CommandId) : Prop :=
  outer ∈ c.parents ∨ .anywhere ∈ c.parents

lemma Command.accepts_iff {c : Command σ} {outer : CommandId} :
    c.accepts outer = true ↔ c.Admits outer := by
  simp only [accepts, Admits, List.any_eq_true, Bool.or_eq_true, beq_iff_eq]
  constructor
  · rintro ⟨p, hp, rfl | rfl⟩
    · exact .inl hp
    · exact .inr hp
  · rintro (h | h)
    · exact ⟨_, h, .inl rfl⟩
    · exact ⟨_, h, .inr rfl⟩

lemma Command.isGenerative_of_mayCreate {c : Command σ} {type : TypeTag}
    (h : c.mayCreate type = true) : c.isGenerative = true := by
  obtain ⟨u, hu, -⟩ := List.any_eq_true.1 h
  cases hc : c.creates with
  | nil =>
    rw [hc] at hu
    cases hu
  | cons => simp [isGenerative, hc]

namespace CommandTable

/-- The number of types at the outer end that no command creates. -/
def ambient (t : CommandTable σ) (signature : List TypeTag) : Nat :=
  (signature.takeWhile fun type => !t.real.any fun e => e.2.mayCreate type).length

/-- Commands, the outermost first, of which each stands under the one before it and which account for
some types.  Inside of something that was there before, the outermost one must be able to begin on an
empty stack. -/
structure Lineage (t : CommandTable σ) (inside : Prop) (types : List TypeTag)
    (line : List (CommandId × Command σ)) : Prop where
  real : ∀ e ∈ line, e ∈ t.real
  outermost : ∃ e, line.head? = some e ∧ e.2.isGenerative = true ∧
    (inside → e.2.Admits .outside)
  nested : line.IsChain fun outer e => e.2.Admits outer.1
  creates : List.Forall₂ (fun e type => e.2.mayCreate type = true)
    (line.filter (·.2.isGenerative)) types

variable {t : CommandTable σ} {inside : Prop} {types : List TypeTag} {type : TypeTag}
  {line : List (CommandId × Command σ)} {e o : CommandId × Command σ}

/-! ## The numbers of commands -/

lemma getElem?_real (k : Nat) :
    t.real[k]? = t.commands[k + 2]?.map (⟨k + 2⟩, ·) := by
  rw [real, List.getElem?_drop, List.getElem?_map, List.getElem?_zipIdx, Option.map_map]
  simp [Nat.add_comm, Function.comp_def]

lemma exists_of_mem_real (he : e ∈ t.real) :
    ∃ k, e.1 = ⟨k + 2⟩ ∧ t.commands[k + 2]? = some e.2 := by
  obtain ⟨k, hk⟩ := List.mem_iff_getElem?.1 he
  rw [getElem?_real] at hk
  obtain ⟨c, hc, rfl⟩ := Option.map_eq_some_iff.1 hk
  exact ⟨k, rfl, hc⟩

lemma pairwise_numbers : (t.real.map (·.1)).Pairwise (·.index < ·.index) := by
  rw [List.pairwise_map, List.pairwise_iff_getElem]
  intro i j hi hj hij
  have hi' := getElem?_real (t := t) i
  have hj' := getElem?_real (t := t) j
  rw [List.getElem?_eq_getElem hi] at hi'
  rw [List.getElem?_eq_getElem hj] at hj'
  obtain ⟨c, -, hc⟩ := Option.map_eq_some_iff.1 hi'.symm
  obtain ⟨d, -, hd⟩ := Option.map_eq_some_iff.1 hj'.symm
  rw [← hc, ← hd]
  exact Nat.add_lt_add_right hij 2

lemma nodup_numbers : (t.real.map (·.1)).Nodup :=
  pairwise_numbers.imp fun h heq => h.ne (congrArg CommandId.index heq)

/-- With real commands only, a parent among them is one that is listed. -/
lemma parentActive_iff {active : List CommandId} (hactive : ∀ i ∈ active, ∃ k, i = ⟨k + 2⟩)
    (c : Command σ) :
    parentActive active false c = true ↔ ∃ i ∈ active, c.Admits i := by
  simp only [parentActive, List.any_eq_true, Command.Admits]
  constructor
  · rintro ⟨p, hp, h⟩
    split at h
    · next heq =>
      rw [beq_iff_eq] at heq
      cases active with
      | nil => cases h
      | cons i _ => exact ⟨i, List.mem_cons_self, .inr (heq ▸ hp)⟩
    · split at h
      · cases h
      · exact ⟨p, List.contains_iff_mem.1 h, .inl hp⟩
  · rintro ⟨i, hi, h | h⟩
    · obtain ⟨k, rfl⟩ := hactive i hi
      refine ⟨_, h, ?_⟩
      rw [if_neg (by simp [CommandId.anywhere]), if_neg (by simp [CommandId.outside])]
      exact List.contains_iff_mem.2 hi
    · refine ⟨_, h, ?_⟩
      rw [if_pos (beq_self_eq_true _)]
      cases active with
      | nil => cases hi
      | cons => rfl

/-- On an empty stack the parents that count are the empty stack and any place. -/
lemma parentActive_nil_iff (c : Command σ) :
    parentActive [] true c = true ↔ c.Admits .outside := by
  simp only [parentActive, List.any_eq_true, Command.Admits]
  constructor
  · rintro ⟨p, hp, h⟩
    split at h
    · next heq =>
      rw [beq_iff_eq] at heq
      exact .inr (heq ▸ hp)
    · split at h
      · next heq =>
        rw [beq_iff_eq] at heq
        exact .inl (heq ▸ hp)
      · cases h
  · rintro (h | h)
    · exact ⟨_, h, rfl⟩
    · exact ⟨_, h, rfl⟩

/-! ## Commands that create nothing -/

/-- What stands among some commands, or under them with nothing in between that creates nodes. -/
inductive Selected (t : CommandTable σ) (active : List CommandId) : CommandId → Prop where
  | active {i : CommandId} : i ∈ active → Selected t active i
  | under {o i : CommandId} {c : Command σ} : Selected t active o → (i, c) ∈ t.real →
    c.isGenerative = false → c.Admits o → Selected t active i

section Selectors

variable {active : List CommandId}

/-- The commands that are added in a round. -/
def added (t : CommandTable σ) (active : List CommandId) : List (CommandId × Command σ) :=
  t.real.filter fun (i, c) =>
    !active.contains i && !c.isGenerative && parentActive active false c

lemma mem_added_iff (hactive : active ⊆ t.real.map (·.1)) :
    e ∈ t.added active ↔
      e ∈ t.real ∧ e.1 ∉ active ∧ e.2.isGenerative = false ∧ ∃ o ∈ active, e.2.Admits o := by
  have hreal : ∀ i ∈ active, ∃ k, i = ⟨k + 2⟩ := by
    intro i hi
    obtain ⟨e, he, rfl⟩ := List.mem_map.1 (hactive hi)
    obtain ⟨k, hk, -⟩ := exists_of_mem_real he
    exact ⟨k, hk⟩
  rw [added, List.mem_filter, Bool.and_eq_true, Bool.and_eq_true, parentActive_iff hreal]
  simp [and_assoc]

lemma added_subset (active : List CommandId) : (t.added active).map (·.1) ⊆ t.real.map (·.1) :=
  List.map_subset _ List.filter_sublist.subset

/-- Only what stands among the commands or under them is added. -/
lemma selected_of_mem_withSelectors {start : List CommandId} {rounds : Nat}
    (hactive : active ⊆ t.real.map (·.1)) (hstart : ∀ i ∈ active, t.Selected start i) :
    ∀ i ∈ t.withSelectors rounds active, t.Selected start i := by
  induction rounds generalizing active with
  | zero => exact hstart
  | succ rounds ih =>
    rw [withSelectors]
    split
    · exact hstart
    · refine ih (List.append_subset.2 ⟨hactive, added_subset active⟩) fun i hi => ?_
      rcases List.mem_append.1 hi with hi | hi
      · exact hstart i hi
      · obtain ⟨e, he, rfl⟩ := List.mem_map.1 hi
        obtain ⟨he, -, hgen, o, ho, hadm⟩ := (mem_added_iff hactive).1 he
        exact .under (hstart o ho) he hgen hadm

/-- Rounds are enough if they are as many as commands are left. -/
lemma withSelectors_closed {rounds : Nat} (hd : active.Nodup) (hactive : active ⊆ t.real.map (·.1))
    (hlen : t.size ≤ active.length + rounds) :
    active ⊆ t.withSelectors rounds active ∧
      t.withSelectors rounds active ⊆ t.real.map (·.1) ∧
      t.added (t.withSelectors rounds active) = [] := by
  induction rounds generalizing active with
  | zero =>
    refine ⟨fun _ => id, hactive, List.eq_nil_iff_forall_not_mem.2 fun e he => ?_⟩
    -- all commands are there already
    obtain ⟨he, hn, -⟩ := (mem_added_iff hactive).1 he
    have hperm := (List.subperm_of_subset hd hactive).perm_of_length_le (by simpa [size] using hlen)
    exact hn (hperm.mem_iff.2 (List.mem_map_of_mem he))
  | succ rounds ih =>
    rw [withSelectors]
    split
    · next hmore => exact ⟨fun _ => id, hactive, List.isEmpty_iff.1 hmore⟩
    · next hmore =>
      have hsub : (active ++ (t.added active).map (·.1)) ⊆ t.real.map (·.1) :=
        List.append_subset.2 ⟨hactive, added_subset active⟩
      have hnodup : (active ++ (t.added active).map (·.1)).Nodup := by
        refine List.nodup_append.2 ⟨hd, ?_, ?_⟩
        · exact nodup_numbers.sublist (List.filter_sublist.map _)
        · rintro i hi j hj rfl
          obtain ⟨e, he, rfl⟩ := List.mem_map.1 hj
          exact ((mem_added_iff hactive).1 he).2.1 hi
      have hpos : 0 < (t.added active).length :=
        List.length_pos_iff.2 fun h => hmore (List.isEmpty_iff.2 h)
      have hle : t.size ≤ (active ++ (t.added active).map (·.1)).length + rounds := by
        rw [List.length_append, List.length_map]
        omega
      obtain ⟨h1, h2, h3⟩ := ih hnodup hsub hle
      exact ⟨fun i hi => h1 (List.mem_append_left _ hi), h2, h3⟩

/-- All that stands among the commands or under them is found. -/
lemma mem_withSelectors_iff {i : CommandId} (hd : active.Nodup)
    (hactive : active ⊆ t.real.map (·.1)) :
    i ∈ t.withSelectors t.size active ↔ t.Selected active i := by
  refine ⟨selected_of_mem_withSelectors hactive (fun _ => .active) i, fun h => ?_⟩
  obtain ⟨hsub, hreal, hclosed⟩ := withSelectors_closed hd hactive (Nat.le_add_left _ _)
  induction h with
  | active hi => exact hsub hi
  | @under o i c _ hc hgen hadm ih =>
    by_contra hn
    have hmem := (mem_added_iff hreal).2 ⟨hc, hn, hgen, o, ih, hadm⟩
    rw [hclosed] at hmem
    cases hmem

end Selectors

/-! ## Longer lineages -/

/-- The types that a command of a lineage accounts for. -/
inductive Accounts (c : Command σ) : List TypeTag → Prop where
  | creates {type : TypeTag} : c.mayCreate type = true → Accounts c [type]
  | selects : c.isGenerative = false → Accounts c []

lemma forall₂_filter_singleton_iff :
    List.Forall₂ (fun e type => e.2.mayCreate type = true) ([e].filter (·.2.isGenerative)) types ↔
      Accounts e.2 types := by
  cases hgen : e.2.isGenerative with
  | true =>
    rw [List.filter_cons_of_pos (p := fun e : CommandId × Command σ => e.2.isGenerative) hgen,
      List.filter_nil, List.forall₂_cons_left_iff]
    constructor
    · rintro ⟨type, rest, hc, hrest, rfl⟩
      rw [List.forall₂_nil_left_iff.1 hrest]
      exact .creates hc
    · rintro (hc | hnot)
      · exact ⟨_, [], hc, .nil, rfl⟩
      · rw [hgen] at hnot
        cases hnot
  | false =>
    rw [List.filter_cons_of_neg (p := fun e : CommandId × Command σ => e.2.isGenerative)
      (by simp [hgen]), List.filter_nil, List.forall₂_nil_left_iff]
    constructor
    · rintro rfl
      exact .selects hgen
    · rintro (hc | -)
      · rw [Command.isGenerative_of_mayCreate hc] at hgen
        cases hgen
      · rfl

lemma lineage_singleton_iff :
    t.Lineage inside types [e] ↔
      e ∈ t.real ∧ (inside → e.2.Admits .outside) ∧
        ∃ type, types = [type] ∧ e.2.mayCreate type = true := by
  constructor
  · rintro ⟨hreal, ⟨_, he, hgen, hin⟩, -, hc⟩
    obtain rfl := Option.some.inj he
    refine ⟨hreal e List.mem_cons_self, hin, ?_⟩
    cases forall₂_filter_singleton_iff.1 hc with
    | creates hcreate => exact ⟨_, rfl, hcreate⟩
    | selects hnot =>
      rw [hgen] at hnot
      cases hnot
  · rintro ⟨he, hin, type, rfl, hc⟩
    refine ⟨?_, ⟨e, rfl, Command.isGenerative_of_mayCreate hc, hin⟩, .singleton e, ?_⟩
    · simpa using he
    · exact forall₂_filter_singleton_iff.2 (.creates hc)

/-- A lineage goes on with a command under its last one, which accounts for the last types. -/
lemma lineage_append_iff :
    t.Lineage inside types (line ++ [o] ++ [e]) ↔
      ∃ outer inner, types = outer ++ inner ∧ t.Lineage inside outer (line ++ [o]) ∧
        e ∈ t.real ∧ e.2.Admits o.1 ∧ Accounts e.2 inner := by
  have hhead : (line ++ [o] ++ [e]).head? = (line ++ [o]).head? := by
    cases line <;> rfl
  have hchain : (line ++ [o] ++ [e]).IsChain (fun outer e => e.2.Admits outer.1) ↔
      (line ++ [o]).IsChain (fun outer e => e.2.Admits outer.1) ∧ e.2.Admits o.1 := by
    rw [List.append_assoc]
    exact List.isChain_append_cons_cons.trans (and_congr_right fun _ => and_iff_left (.singleton e))
  constructor
  · rintro ⟨hreal, hout, hnested, hc⟩
    rw [hhead] at hout
    obtain ⟨hnested, hadm⟩ := hchain.1 hnested
    rw [List.filter_append] at hc
    refine ⟨_, _, (List.take_append_drop _ types).symm, ⟨?_, hout, hnested,
      (List.forall₂_take_append _ _ _ hc.flip).flip⟩, hreal e (by simp), hadm,
      forall₂_filter_singleton_iff.1 (List.forall₂_drop_append _ _ _ hc.flip).flip⟩
    exact fun x hx => hreal x (List.mem_append_left _ hx)
  · rintro ⟨outer, inner, rfl, h, he, hadm, hc⟩
    refine ⟨?_, hhead ▸ h.outermost, hchain.2 ⟨h.nested, hadm⟩, ?_⟩
    · intro x hx
      rcases List.mem_append.1 hx with hx | hx
      · exact h.real x hx
      · rwa [List.mem_singleton.1 hx]
    · rw [List.filter_append]
      exact List.rel_append h.creates (forall₂_filter_singleton_iff.2 hc)

lemma Lineage.ne_nil (h : t.Lineage inside types line) : types ≠ [] := by
  rintro rfl
  obtain ⟨e, he, hgen, -⟩ := h.outermost
  have hnil := List.forall₂_nil_right_iff.1 h.creates
  exact List.filter_eq_nil_iff.1 hnil e (List.mem_of_head? he) hgen

/-- A lineage of a single type that ends in a command which creates nodes is that command alone. -/
lemma lineage_create_one_iff (hgen : e.2.isGenerative = true) :
    t.Lineage inside [type] (line ++ [e]) ↔
      line = [] ∧ e ∈ t.real ∧ (inside → e.2.Admits .outside) ∧ e.2.mayCreate type = true := by
  cases line using List.reverseRec with
  | nil =>
    rw [List.nil_append, lineage_singleton_iff]
    simp
  | append_singleton line o =>
    refine iff_of_false (fun h => ?_) (by simp)
    obtain ⟨outer, inner, htypes, h, -, -, hc⟩ := lineage_append_iff.1 h
    rcases hc with hc | hnot
    · rw [List.singleton_eq_append_iff] at htypes
      simp [h.ne_nil] at htypes
    · rw [hgen] at hnot
      cases hnot

/-- A lineage of more types that ends in a command which creates nodes ends with its type. -/
lemma lineage_create_iff (hgen : e.2.isGenerative = true) (hne : types ≠ []) :
    t.Lineage inside (types ++ [type]) (line ++ [e]) ↔
      ∃ rest o, line = rest ++ [o] ∧ t.Lineage inside types line ∧
        e ∈ t.real ∧ e.2.Admits o.1 ∧ e.2.mayCreate type = true := by
  cases line using List.reverseRec with
  | nil =>
    refine iff_of_false (fun h => ?_) fun ⟨_, _, h, _⟩ => by simp at h
    obtain ⟨-, -, type', htypes, -⟩ := lineage_singleton_iff.1 h
    have htypes : types ++ [type] = [] ++ [type'] := htypes
    exact hne (List.append_inj' htypes rfl).1
  | append_singleton line o =>
    rw [lineage_append_iff]
    constructor
    · rintro ⟨outer, inner, htypes, h, he, hadm, hc | hnot⟩
      · obtain ⟨rfl, hlast⟩ := List.append_inj' htypes rfl
        cases hlast
        exact ⟨line, o, rfl, h, he, hadm, hc⟩
      · rw [hgen] at hnot
        cases hnot
    · rintro ⟨rest, o', heq, h, he, hadm, hc⟩
      obtain ⟨-, hlast⟩ := List.append_inj' heq rfl
      cases hlast
      exact ⟨types, [type], rfl, h, he, hadm, .creates hc⟩

/-! ## What is deduced -/

/-- A lineage of some types ends in a command. -/
def EndsIn (t : CommandTable σ) (inside : Prop) (types : List TypeTag) (i : CommandId) : Prop :=
  ∃ line c, t.Lineage inside types (line ++ [(i, c)])

section Rows

variable {active before : List CommandId} {i : CommandId}

lemma EndsIn.mem_real (h : t.EndsIn inside types i) : i ∈ t.real.map (·.1) := by
  obtain ⟨line, c, h⟩ := h
  exact List.mem_map.2 ⟨(i, c), h.real _ (by simp), rfl⟩

/-- From the commands that account for the last type the others are found by what creates nothing. -/
lemma selected_iff_endsIn
    (hactive : ∀ i, i ∈ active ↔
      ∃ line c, c.isGenerative = true ∧ t.Lineage inside types (line ++ [(i, c)])) :
    t.Selected active i ↔ t.EndsIn inside types i := by
  constructor
  · intro h
    induction h with
    | active hi =>
      obtain ⟨line, c, -, h⟩ := (hactive _).1 hi
      exact ⟨line, c, h⟩
    | @under o i c _ hc hgen hadm ih =>
      obtain ⟨line, d, h⟩ := ih
      refine ⟨line ++ [(o, d)], c, lineage_append_iff.2 ?_⟩
      exact ⟨types, [], (List.append_nil _).symm, h, hc, hadm, .selects hgen⟩
  · rintro ⟨line, c, h⟩
    induction line using List.reverseRec generalizing i c with
    | nil =>
      obtain ⟨-, -, type, -, hc⟩ := lineage_singleton_iff.1 h
      exact .active ((hactive i).2 ⟨[], c, Command.isGenerative_of_mayCreate hc, h⟩)
    | append_singleton line o ih =>
      obtain ⟨outer, inner, htypes, ho, he, hadm, hc⟩ := lineage_append_iff.1 h
      cases hc with
      | creates hc =>
        exact .active ((hactive i).2 ⟨_, c, Command.isGenerative_of_mayCreate hc, h⟩)
      | selects hgen =>
        rw [List.append_nil] at htypes
        exact .under (ih o.2 (htypes ▸ ho)) he hgen hadm

lemma mem_creators_iff {outermost first : Bool} :
    i ∈ t.creators outermost first before type ↔
      ∃ c, (i, c) ∈ t.real ∧ c.mayCreate type = true ∧
        (outermost = true ∨ parentActive (if first then [] else before) first c = true) := by
  simp [creators, and_assoc]

lemma mem_row_iff {outermost first : Bool}
    (hactive : ∀ i, i ∈ t.creators outermost first before type ↔
      ∃ line c, c.isGenerative = true ∧ t.Lineage inside types (line ++ [(i, c)])) :
    i ∈ t.withSelectors t.size (t.creators outermost first before type) ↔
      t.EndsIn inside types i := by
  have hsub := (List.filter_sublist (l := t.real) (p := fun e =>
    e.2.mayCreate type && (outermost || parentActive (if first then [] else before) first e.2))).map
      (·.1)
  rw [← selected_iff_endsIn hactive]
  exact mem_withSelectors_iff (nodup_numbers.sublist hsub) hsub.subset

/-- The first type is accounted for by a command that creates it. -/
lemma mem_firstRow_iff {outermost : Bool} (hout : outermost = true ↔ ¬ inside) :
    i ∈ t.withSelectors t.size (t.creators outermost true [] type) ↔
      t.EndsIn inside [type] i := by
  refine mem_row_iff fun i => ?_
  rw [mem_creators_iff]
  constructor
  · rintro ⟨c, hc, hcreate, hadm⟩
    have hgen := Command.isGenerative_of_mayCreate hcreate
    refine ⟨[], c, hgen, (lineage_create_one_iff hgen).2 ⟨rfl, hc, fun hin => ?_, hcreate⟩⟩
    rcases hadm with ho | hadm
    · exact absurd hin (hout.1 ho)
    · exact (parentActive_nil_iff c).1 hadm
  · rintro ⟨line, c, hgen, h⟩
    obtain ⟨-, hc, hin, hcreate⟩ := (lineage_create_one_iff hgen).1 h
    refine ⟨c, hc, hcreate, ?_⟩
    by_cases h : inside
    · exact .inr ((parentActive_nil_iff c).2 (hin h))
    · exact .inl (hout.2 h)

/-- Each further type is accounted for by a command under those for the types before it. -/
lemma mem_nextRow_iff (hne : types ≠ []) (hbefore : ∀ i, i ∈ before ↔ t.EndsIn inside types i) :
    i ∈ t.withSelectors t.size (t.creators false false before type) ↔
      t.EndsIn inside (types ++ [type]) i := by
  have hreal : ∀ o ∈ before, ∃ k, o = ⟨k + 2⟩ := by
    intro o ho
    obtain ⟨e, he, rfl⟩ := List.mem_map.1 ((hbefore o).1 ho).mem_real
    obtain ⟨k, hk, -⟩ := exists_of_mem_real he
    exact ⟨k, hk⟩
  refine mem_row_iff fun i => ?_
  rw [mem_creators_iff]
  constructor
  · rintro ⟨c, hc, hcreate, hadm⟩
    have hgen := Command.isGenerative_of_mayCreate hcreate
    obtain ⟨o, ho, hadm⟩ := (parentActive_iff hreal c).1 (hadm.resolve_left Bool.false_ne_true)
    obtain ⟨line, d, h⟩ := (hbefore o).1 ho
    exact ⟨_, c, hgen, (lineage_create_iff hgen hne).2 ⟨line, (o, d), rfl, h, hc, hadm, hcreate⟩⟩
  · rintro ⟨line, c, hgen, h⟩
    obtain ⟨rest, o, rfl, h, hc, hadm, hcreate⟩ := (lineage_create_iff hgen hne).1 h
    have ho := (hbefore o.1).2 ⟨rest, o.2, h⟩
    exact ⟨c, hc, hcreate, .inr ((parentActive_iff hreal c).2 ⟨o.1, ho, hadm⟩)⟩

lemma mem_account_iff {rest : List TypeTag} (hne : types ≠ [])
    (hbefore : ∀ i, i ∈ before ↔ t.EndsIn inside types i) :
    i ∈ t.account before rest ↔ t.EndsIn inside (types ++ rest) i := by
  induction rest generalizing before types with
  | nil => rw [account, List.append_nil, hbefore]
  | cons type rest ih =>
    rw [account, ih (by simp) fun i => mem_nextRow_iff hne hbefore, List.append_assoc,
      List.singleton_append]

end Rows

section Deduced

variable (t : CommandTable σ) (signature : List TypeTag)

lemma drop_ambient :
    signature.drop (t.ambient signature) =
      signature.dropWhile fun type => !t.real.any fun e => e.2.mayCreate type := by
  set p := fun type : TypeTag => !t.real.any fun e => e.2.mayCreate type
  calc signature.drop (t.ambient signature)
      = (signature.takeWhile p ++ signature.dropWhile p).drop (signature.takeWhile p).length := by
        rw [List.takeWhile_append_dropWhile, ambient]
    _ = signature.dropWhile p := List.drop_left

lemma mem_deduce_iff {i : CommandId} :
    i ∈ t.deduce signature ↔
      t.EndsIn (0 < t.ambient signature) (signature.drop (t.ambient signature)) i := by
  rw [deduce, ← drop_ambient]
  cases hknown : signature.drop (t.ambient signature) with
  | nil => exact iff_of_false List.not_mem_nil fun ⟨_, _, h⟩ => h.ne_nil rfl
  | cons type rest =>
    have hout : ((type :: rest).length == signature.length) = true ↔ ¬ 0 < t.ambient signature := by
      have hle := congrArg List.length hknown
      rw [List.length_drop] at hle
      rw [beq_iff_eq, ← hle]
      have : t.ambient signature < signature.length := by
        by_contra h
        rw [List.drop_eq_nil_of_le (Nat.le_of_not_lt h)] at hknown
        cases hknown
      omega
    rw [List.mem_filter, List.contains_iff_mem,
      mem_account_iff (List.cons_ne_nil type []) fun _ => mem_firstRow_iff hout,
      List.singleton_append]
    exact and_iff_right_of_imp EndsIn.mem_real

/-- In their order of registration and each once, just the commands are deduced in which a lineage of
the scope ends.  If all of the scope was there before there is none. -/
theorem deduce_lineages :
    (t.ambient signature = signature.length → t.deduce signature = []) ∧
      (t.deduce signature).Pairwise (·.index < ·.index) ∧
      ∀ i, i ∈ t.deduce signature ↔ ∃ line c,
        t.Lineage (0 < t.ambient signature) (signature.drop (t.ambient signature))
          (line ++ [(i, c)]) := by
  refine ⟨fun hall => ?_, ?_, fun i => mem_deduce_iff t signature⟩
  · refine List.eq_nil_iff_forall_not_mem.2 fun i hi => ?_
    obtain ⟨_, _, h⟩ := (mem_deduce_iff t signature).1 hi
    exact h.ne_nil (by rw [hall, List.drop_length])
  · rw [deduce]
    cases signature.dropWhile fun type => !t.real.any fun e => e.2.mayCreate type with
    | nil => exact .nil
    | cons type rest => exact pairwise_numbers.sublist List.filter_sublist

end Deduced

end CommandTable

end Semdoc
