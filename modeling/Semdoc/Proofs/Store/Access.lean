import Mathlib.Data.List.Nodup
import Mathlib.Data.List.Perm.Subperm
import Mathlib.Tactic.Lemma
import Semdoc.Graph.Edit

/-!
# Access to the store

What a handle reaches after each of the ways in which a store is written: changing a node, adding one
and dropping one.  A handle that was given out before never reaches a node that is added later; this
is what `Issued` keeps track of.  The number of places bounds the number of handles that reach a node.
-/

namespace Semdoc.Store

/-- A handle reaches a node exactly if its place holds one of the same generation. -/
lemma get?_eq_some_iff {s : Store} {h : NodeHandle} {n : Node} :
    s.get? h = some n ↔
      ∃ i, h.place = i + 1 ∧ s.cells[i]? = some ⟨h.generation, some n⟩ := by
  unfold get?
  split
  · next e => simp [e]
  · next i e =>
    simp only [Option.bind_eq_some_iff, Option.ite_none_right_eq_some]
    constructor
    · rintro ⟨⟨g, node⟩, hc, rfl, rfl⟩
      exact ⟨i, e, hc⟩
    · rintro ⟨j, hj, hc⟩
      obtain rfl : i = j := by simpa [e] using hj
      exact ⟨_, hc, rfl, rfl⟩

@[simp] lemma get?_empty (h : NodeHandle) : get? {} h = none := by
  unfold get?
  split <;> simp

lemma contains_iff {s : Store} {h : NodeHandle} : s.contains h = true ↔ ∃ n, s.get? h = some n := by
  rw [contains, Option.isSome_iff_exists]

/-- What a handle reaches depends on its place only. -/
lemma get?_congr {s s' : Store} {k : NodeHandle}
    (hc : ∀ i, k.place = i + 1 → s'.cells[i]? = s.cells[i]?) : s'.get? k = s.get? k := by
  ext n
  simp only [get?_eq_some_iff]
  constructor
  · rintro ⟨i, hi, e⟩
    exact ⟨i, hi, (hc i hi).symm.trans e⟩
  · rintro ⟨i, hi, e⟩
    exact ⟨i, hi, (hc i hi).trans e⟩

/-- A handle reaches nothing at a place of another generation. -/
lemma get?_of_generation_ne {s : Store} {k : NodeHandle} {i : Nat} {c : Cell}
    (hi : k.place = i + 1) (hc : s.cells[i]? = some c) (hg : c.generation ≠ k.generation) :
    s.get? k = none := by
  rw [Option.eq_none_iff_forall_ne_some]
  intro n hn
  obtain ⟨j, hj, hc'⟩ := get?_eq_some_iff.1 hn
  obtain rfl : i = j := by omega
  rw [hc] at hc'
  cases hc'
  exact hg rfl

/-- What the handles reach after one place was written: the handle of the new generation reaches the
new node, and the handles of other places what they reached. -/
lemma get?_of_write {s s' : Store} {h k : NodeHandle} {i : Nat} {n : Node}
    (hi : h.place = i + 1) (hw : s'.cells[i]? = some ⟨h.generation, some n⟩)
    (ho : ∀ j, j ≠ i → s'.cells[j]? = s.cells[j]?)
    (hs : k ≠ h → k.place = i + 1 → s.get? k = none) :
    s'.get? k = if k = h then some n else s.get? k := by
  split
  · next e =>
    subst e
    exact get?_eq_some_iff.2 ⟨i, hi, hw⟩
  · next e =>
    by_cases hk : k.place = i + 1
    · rw [hs e hk]
      apply get?_of_generation_ne hk hw
      intro hg
      apply e
      obtain ⟨p, g⟩ := k
      obtain ⟨q, g'⟩ := h
      simp_all
    · apply get?_congr
      intro j hj
      exact ho j (by omega)

/-- Changing a node changes what its handle reaches, and nothing else. -/
lemma get?_modify (s : Store) (h k : NodeHandle) (f : Node → Node) :
    (s.modify h f).get? k = if k = h then (s.get? h).map f else s.get? k := by
  cases hn : s.get? h with
  | none =>
    have hm : s.modify h f = s := by simp [modify, hn]
    rw [hm]
    split
    · next e => rw [e, hn, Option.map_none]
    · rfl
  | some n =>
    obtain ⟨i, hp, hc⟩ := get?_eq_some_iff.1 hn
    have hi : i < s.cells.size := (Array.getElem?_eq_some_iff.1 hc).1
    have hm : (s.modify h f).cells = s.cells.setIfInBounds i ⟨h.generation, some (f n)⟩ := by
      simp [modify, hn, hp]
    apply get?_of_write hp
    · simp [hm, hi]
    · intro j hj
      simp [hm, hj.symm]
    · intro e hk
      apply get?_of_generation_ne hk hc
      intro hg
      exact e (by cases k; cases h; simp_all)

/-! ## Handles that have been given out -/

/-- The places that were left hold no node, and none of them is listed twice. -/
structure Intact (s : Store) : Prop where
  vacant_empty : ∀ i ∈ s.vacant, ∃ g, s.cells[i]? = some ⟨g, none⟩
  vacant_nodup : s.vacant.Nodup

/-- A handle reaches a node or has reached one before. -/
def Issued (s : Store) (h : NodeHandle) : Prop :=
  ∃ i c, h.place = i + 1 ∧ s.cells[i]? = some c ∧
    (h.generation < c.generation ∨ h.generation = c.generation ∧ c.node.isSome)

/-- The handle of the node that is added next. -/
def nextHandle (s : Store) : NodeHandle :=
  match s.vacant with
  | index :: _ => s.handleAt index
  | [] => ⟨s.cells.size + 1, 1⟩

/-- A handle that reaches a node has been given out. -/
lemma Issued.of_contains {s : Store} {h : NodeHandle} (hh : s.contains h = true) :
    s.Issued h := by
  obtain ⟨n, hn⟩ := contains_iff.1 hh
  obtain ⟨i, hp, hc⟩ := get?_eq_some_iff.1 hn
  exact ⟨i, _, hp, hc, .inr ⟨rfl, rfl⟩⟩

/-- The handle of the next node has not been given out. -/
lemma Intact.not_issued_nextHandle {s : Store} (hs : s.Intact) : ¬ s.Issued s.nextHandle := by
  rintro ⟨i, c, hp, hc, hg⟩
  cases hv : s.vacant with
  | nil =>
    simp only [nextHandle, hv, Nat.add_right_cancel_iff] at hp
    simp [← hp] at hc
  | cons j rest =>
    obtain ⟨g, hj⟩ := hs.vacant_empty j (by simp [hv])
    simp only [nextHandle, hv, handleAt, Nat.add_right_cancel_iff] at hp
    subst hp
    rw [hj] at hc
    cases hc
    simp [nextHandle, hv, handleAt, hj] at hg

lemma Intact.ne_nextHandle {s : Store} (hs : s.Intact) {h : NodeHandle} (hh : s.Issued h) :
    h ≠ s.nextHandle := by
  rintro rfl
  exact hs.not_issued_nextHandle hh

lemma ne_nextHandle {s : Store} (hs : s.Intact) {h : NodeHandle} (hh : s.contains h = true) :
    h ≠ s.nextHandle :=
  hs.ne_nextHandle (.of_contains hh)

/-- It reaches nothing. -/
lemma get?_nextHandle {s : Store} (hs : s.Intact) : s.get? s.nextHandle = none := by
  by_contra h
  exact ne_nextHandle hs (Option.isSome_iff_ne_none.2 h) rfl

/-- Adding a node gives out the next handle. -/
lemma fst_create (s : Store) (name : String) (content : Content) :
    (s.create name content).1 = s.nextHandle := by
  cases hv : s.vacant <;> simp [create, nextHandle, hv]

/-- The next handle reaches the node that is added, and the other handles what they reached. -/
lemma Intact.get?_create {s : Store} (hs : s.Intact) (name : String) (content : Content)
    (k : NodeHandle) :
    (s.create name content).2.get? k =
      if k = s.nextHandle then some (.new s.nextUid name content) else s.get? k := by
  cases hv : s.vacant with
  | nil =>
    have hm : (s.create name content).2.cells
        = s.cells.push ⟨1, some (.new s.nextUid name content)⟩ := by
      simp [create, hv]
    have hn : s.nextHandle = ⟨s.cells.size + 1, 1⟩ := by simp [nextHandle, hv]
    rw [hn]
    apply get?_of_write rfl
    · simp [hm]
    · intro j hj
      simp [hm, Array.getElem?_push, hj]
    · intro _ hk
      rw [Option.eq_none_iff_forall_ne_some]
      intro n hn
      obtain ⟨j, hj, hc⟩ := get?_eq_some_iff.1 hn
      obtain rfl : j = s.cells.size := by omega
      simp at hc
  | cons i rest =>
    obtain ⟨g, hi⟩ := hs.vacant_empty i (by simp [hv])
    have hi' : i < s.cells.size := (Array.getElem?_eq_some_iff.1 hi).1
    have hm : (s.create name content).2.cells
        = s.cells.setIfInBounds i ⟨g, some (.new s.nextUid name content)⟩ := by
      simp [create, hv, handleAt, hi]
    have hn : s.nextHandle = ⟨i + 1, g⟩ := by simp [nextHandle, hv, handleAt, hi]
    rw [hn]
    apply get?_of_write rfl
    · simp [hm, hi']
    · intro j hj
      simp [hm, hj.symm]
    · intro e hk
      apply get?_of_generation_ne hk hi
      intro hg
      exact e (by cases k; simp_all)

@[simp] lemma contains_modify (s : Store) (h k : NodeHandle) (f : Node → Node) :
    (s.modify h f).contains k = s.contains k := by
  unfold contains
  rw [get?_modify]
  split
  · next e => rw [e, Option.isSome_map]
  · rfl

lemma vacant_modify (s : Store) (h : NodeHandle) (f : Node → Node) :
    (s.modify h f).vacant = s.vacant := by
  unfold modify
  split <;> rfl

lemma size_cells_modify (s : Store) (h : NodeHandle) (f : Node → Node) :
    (s.modify h f).cells.size = s.cells.size := by
  unfold modify
  split <;> simp

/-- Changing a node leaves the generations and the places that hold no node. -/
lemma getElem?_cells_modify (s : Store) (h : NodeHandle) (f : Node → Node) (i : Nat) :
    ∃ φ : Option Node → Option Node, (∀ o, (φ o).isSome = o.isSome) ∧
      (s.modify h f).cells[i]? = (s.cells[i]?).map fun c => ⟨c.generation, φ c.node⟩ := by
  unfold modify
  split
  · refine ⟨id, fun _ => rfl, ?_⟩
    simp
  · next n hn =>
    obtain ⟨j, hp, hc⟩ := get?_eq_some_iff.1 hn
    by_cases hij : j = i
    · subst hij
      have hj : j < s.cells.size := (Array.getElem?_eq_some_iff.1 hc).1
      refine ⟨Option.map fun _ => f n, fun o => Option.isSome_map, ?_⟩
      rw [hc]
      simp [hp, hj]
    · refine ⟨id, fun _ => rfl, ?_⟩
      simp [hp, hij]

/-- Changing a node gives out no handle. -/
lemma issued_modify {s : Store} {h k : NodeHandle} {f : Node → Node} :
    (s.modify h f).Issued k ↔ s.Issued k := by
  unfold Issued
  refine exists_congr fun i => ?_
  obtain ⟨φ, hφ, e⟩ := getElem?_cells_modify s h f i
  rw [e]
  cases s.cells[i]? <;> simp [hφ]

lemma Intact.modify {s : Store} (hs : s.Intact) (h : NodeHandle) (f : Node → Node) :
    (s.modify h f).Intact := by
  constructor
  · intro i hi
    rw [vacant_modify] at hi
    obtain ⟨g, hg⟩ := hs.vacant_empty i hi
    obtain ⟨φ, hφ, e⟩ := getElem?_cells_modify s h f i
    refine ⟨g, ?_⟩
    rw [e, hg, Option.map_some]
    have hn : φ none = none := by simpa using hφ none
    rw [hn]
  · rw [vacant_modify]
    exact hs.vacant_nodup

lemma Intact.create {s : Store} (hs : s.Intact) (name : String) (content : Content) :
    (s.create name content).2.Intact := by
  cases hv : s.vacant with
  | nil => constructor <;> simp [Store.create, hv]
  | cons i rest =>
    have hn : (i :: rest).Nodup := hv ▸ hs.vacant_nodup
    have hr : (s.create name content).2.vacant = rest := by simp [Store.create, hv]
    constructor
    · intro j hj
      rw [hr] at hj
      have hij : i ≠ j := by
        rintro rfl
        exact (List.nodup_cons.1 hn).1 hj
      obtain ⟨g, hg⟩ := hs.vacant_empty j (by simp [hv, hj])
      refine ⟨g, ?_⟩
      simpa [Store.create, hv, hij] using hg
    · rw [hr]
      exact (List.nodup_cons.1 hn).2

/-- Handles stay given out when a node is added. -/
lemma Issued.create {s : Store} (hs : s.Intact) {k : NodeHandle} (hk : s.Issued k)
    (name : String) (content : Content) : (s.create name content).2.Issued k := by
  obtain ⟨i, c, hp, hc, hg⟩ := hk
  have hi : i < s.cells.size := (Array.getElem?_eq_some_iff.1 hc).1
  cases hv : s.vacant with
  | nil =>
    refine ⟨i, c, hp, ?_, hg⟩
    simpa [Store.create, hv, Array.getElem?_push, Nat.ne_of_lt hi] using hc
  | cons j rest =>
    by_cases hij : j = i
    · subst hij
      obtain ⟨g, hj⟩ := hs.vacant_empty j (by simp [hv])
      rw [hj] at hc
      cases hc
      refine ⟨j, ⟨g, some (.new s.nextUid name content)⟩, hp, ?_, .inl ?_⟩
      · have hh : s.handleAt j = ⟨j + 1, g⟩ := by simp [handleAt, hj]
        simp [Store.create, hv, hi, hh]
      · simpa using hg
    · refine ⟨i, c, hp, ?_, hg⟩
      simpa [Store.create, hv, hij] using hc

/-- Dropping a node makes its handle reach nothing, and changes nothing else. -/
lemma get?_drop (s : Store) (h k : NodeHandle) :
    (s.drop h).get? k = if k = h then none else s.get? k := by
  cases hn : s.get? h with
  | none =>
    have hm : s.drop h = s := by simp [drop, hn]
    rw [hm]
    split
    · next e => rw [e, hn]
    · rfl
  | some n =>
    obtain ⟨i, hp, hc⟩ := get?_eq_some_iff.1 hn
    have hi : i < s.cells.size := (Array.getElem?_eq_some_iff.1 hc).1
    have hm : (s.drop h).cells = s.cells.setIfInBounds i ⟨h.generation + 2, none⟩ := by
      simp [drop, hn, hp]
    by_cases hk : k.place = i + 1
    · have hd : (s.drop h).get? k = none := by
        rw [Option.eq_none_iff_forall_ne_some]
        intro m hm'
        obtain ⟨j, hj, hc'⟩ := get?_eq_some_iff.1 hm'
        obtain rfl : i = j := by omega
        simp [hm, hi] at hc'
      rw [hd]
      split
      · rfl
      · next e =>
        symm
        apply get?_of_generation_ne hk hc
        intro hg
        exact e (by cases k; cases h; simp_all)
    · rw [if_neg (by rintro rfl; exact hk hp)]
      apply get?_congr
      intro j hj
      have hij : i ≠ j := by omega
      simp [hm, hij]

lemma Intact.drop {s : Store} (hs : s.Intact) (h : NodeHandle) : (s.drop h).Intact := by
  cases hn : s.get? h with
  | none =>
    have hm : s.drop h = s := by simp [Store.drop, hn]
    rwa [hm]
  | some n =>
    obtain ⟨i, hp, hc⟩ := get?_eq_some_iff.1 hn
    have hi : i < s.cells.size := (Array.getElem?_eq_some_iff.1 hc).1
    have hm : (s.drop h).cells = s.cells.setIfInBounds i ⟨h.generation + 2, none⟩ := by
      simp [Store.drop, hn, hp]
    have hv : (s.drop h).vacant = i :: s.vacant := by simp [Store.drop, hn, hp]
    have hni : i ∉ s.vacant := by
      intro hv'
      obtain ⟨g, hg⟩ := hs.vacant_empty i hv'
      rw [hc] at hg
      cases hg
    constructor
    · intro j hj
      rw [hv, List.mem_cons] at hj
      rcases hj with rfl | hj
      · exact ⟨h.generation + 2, by simp [hm, hi]⟩
      · have hij : i ≠ j := by
          rintro rfl
          exact hni hj
        obtain ⟨g, hg⟩ := hs.vacant_empty j hj
        exact ⟨g, by simpa [hm, hij] using hg⟩
    · rw [hv]
      exact List.nodup_cons.2 ⟨hni, hs.vacant_nodup⟩

/-- Handles stay given out when a node is dropped. -/
lemma Issued.drop {s : Store} {k : NodeHandle} (hk : s.Issued k) (h : NodeHandle) :
    (s.drop h).Issued k := by
  cases hn : s.get? h with
  | none =>
    have hm : s.drop h = s := by simp [Store.drop, hn]
    rwa [hm]
  | some n =>
    obtain ⟨i, hp, hc⟩ := get?_eq_some_iff.1 hn
    have hi : i < s.cells.size := (Array.getElem?_eq_some_iff.1 hc).1
    have hm : (s.drop h).cells = s.cells.setIfInBounds i ⟨h.generation + 2, none⟩ := by
      simp [Store.drop, hn, hp]
    obtain ⟨j, c, hj, hc', hg⟩ := hk
    by_cases hij : i = j
    · subst hij
      rw [hc] at hc'
      cases hc'
      refine ⟨i, ⟨h.generation + 2, none⟩, hj, by simp [hm, hi], .inl ?_⟩
      simp only at hg ⊢
      omega
    · exact ⟨j, c, hj, by simpa [hm, hij] using hc', hg⟩

/-! ## The number of nodes -/

/-- A handle that reaches a node is determined by its place. -/
lemma eq_of_place_eq {s : Store} {h k : NodeHandle} (hh : s.contains h = true)
    (hk : s.contains k = true) (e : h.place = k.place) : h = k := by
  obtain ⟨n, hn⟩ := contains_iff.1 hh
  obtain ⟨m, hm⟩ := contains_iff.1 hk
  obtain ⟨i, hi, hc⟩ := get?_eq_some_iff.1 hn
  obtain ⟨j, hj, hc'⟩ := get?_eq_some_iff.1 hm
  obtain rfl : i = j := by omega
  rw [hc] at hc'
  have hg : h.generation = k.generation := by simpa using congrArg (Option.map (·.generation)) hc'
  cases h; cases k; simp_all

/-- There are no more different handles that reach a node than there are places. -/
lemma length_le_size_cells {s : Store} {hs : List NodeHandle} (hd : hs.Nodup)
    (hl : ∀ h ∈ hs, s.contains h = true) : hs.length ≤ s.cells.size := by
  have hn : (hs.map (·.place)).Nodup :=
    List.Nodup.map_on (fun h hh k hk e => eq_of_place_eq (hl h hh) (hl k hk) e) hd
  have hsub : hs.map (·.place) ⊆ (List.range s.cells.size).map (· + 1) := by
    intro p hp
    obtain ⟨h, hh, rfl⟩ := List.mem_map.1 hp
    obtain ⟨n, hn⟩ := contains_iff.1 (hl h hh)
    obtain ⟨i, hi, hc⟩ := get?_eq_some_iff.1 hn
    have hi' : i < s.cells.size := (Array.getElem?_eq_some_iff.1 hc).1
    exact List.mem_map.2 ⟨i, List.mem_range.2 hi', hi.symm⟩
  have hle := (List.subperm_of_subset hn hsub).length_le
  simpa using hle

end Semdoc.Store
