import Semdoc.Graph.Collect
import Semdoc.Proofs.Store.Forest
import Semdoc.Proofs.Walk

/-!
# Dropping nodes

Collecting leaves the nodes that some root owns, with everything in which they are owned or own, and
changes no mark.  A node that stays keeps all that it owns.
-/

namespace Semdoc.Store

/-- The handles of all nodes. -/
lemma mem_handles_iff {s : Store} {h : NodeHandle} : h ∈ s.handles ↔ s.contains h = true := by
  rw [handles, List.mem_filter, and_iff_right_iff_imp]
  intro hc
  obtain ⟨n, hn⟩ := contains_iff.1 hc
  obtain ⟨i, hi, hcell⟩ := get?_eq_some_iff.1 hn
  have hlt : i < s.cells.size := (Array.getElem?_eq_some_iff.1 hcell).1
  refine List.mem_map.2 ⟨i, List.mem_range.2 hlt, ?_⟩
  obtain ⟨place, generation⟩ := h
  simp only at hi
  simp [handleAt, hcell, hi]

/-! ## What is kept -/

/-- The nodes that collecting keeps. -/
def survivors (s : Store) : List NodeHandle :=
  { s with roots := s.roots.filter s.contains }.kept

/-- Everything that is connected to something or a root. -/
def met (s : Store) : List NodeHandle := s.roots ++ s.linked

lemma owned_subset_met (s : Store) (h : NodeHandle) : s.owned h ⊆ s.met := by
  intro c hc
  unfold owned at hc
  cases hn : s.get? h with
  | none =>
    rw [hn] at hc
    cases hc
  | some n =>
    rw [hn] at hc
    obtain ⟨e, he, rfl⟩ := List.mem_map.1 hc
    exact List.mem_append_right _ (target_mem_linked hn (List.mem_filter.1 he).1)

lemma length_met_lt (s : Store) : s.met.length < s.roots.length + s.extent := by
  rw [met, List.length_append]
  exact Nat.add_lt_add_left s.length_linked_lt _

/-- What is kept is what the roots own, directly or not. -/
lemma mem_kept_iff {s : Store} {h : NodeHandle} :
    h ∈ s.kept ↔ ∃ r ∈ s.roots, Relation.ReflTransGen (fun p c => c ∈ s.owned p) r h :=
  Walk.mem_depthFirst_iff (fun h _ => s.owned_subset_met h) (List.subset_append_left _ _)
    s.length_met_lt

lemma mem_survivors_of_owns {s : Store} (hs : s.Shaped) {h c : NodeHandle}
    (hh : h ∈ s.survivors) (hc : s.Owns h c) : c ∈ s.survivors := by
  obtain ⟨r, hr, hrh⟩ := mem_kept_iff.1 hh
  refine mem_kept_iff.2 ⟨r, hr, hrh.tail ?_⟩
  obtain ⟨slot, hslot, hm⟩ := hc
  cases hn : s.get? h with
  | none => simp [held, hn] at hm
  | some n =>
    rw [held_of_get? hn] at hm
    have ho : c ∈ n.owned := (hs h n hn).mem_owned_iff.2 ⟨slot, hslot, hm⟩
    have hn' : get? { s with roots := s.roots.filter s.contains } h = some n := hn
    rw [owned, hn']
    exact ho

/-! ## What collecting does -/

lemma get?_bury (s : Store) (h k : NodeHandle) :
    (s.bury h).get? k = if k = h then none else s.get? k := by
  rw [← get?_drop]
  unfold bury
  split
  · next hn => rw [drop, hn]
  · rfl

lemma get?_foldl_bury (hs : List NodeHandle) (s : Store) (k : NodeHandle) :
    (hs.foldl bury s).get? k = if k ∈ hs then none else s.get? k := by
  induction hs generalizing s with
  | nil => rfl
  | cons h r ih =>
    rw [List.foldl_cons, ih, get?_bury]
    by_cases hr : k ∈ r
    · simp [hr]
    · simp [hr]

lemma get?_foldl_modify {f : Node → Node} (hf : ∀ n, f (f n) = f n) (hs : List NodeHandle)
    (s : Store) (k : NodeHandle) :
    (hs.foldl (fun s h => s.modify h f) s).get? k =
      if k ∈ hs then (s.get? k).map f else s.get? k := by
  induction hs generalizing s with
  | nil => rfl
  | cons h r ih =>
    rw [List.foldl_cons, ih, get?_modify]
    have hff : f ∘ f = f := funext hf
    by_cases hk : k = h
    · simp [hk, hff]
    · simp [hk]

/-- The nodes that are kept stay, unless some are dropped; then they forget the rosters of those. -/
lemma exists_get?_collect (s : Store) : ∃ f : Node → Node,
    (f = id ∧ (∀ h, s.contains h = true → h ∈ s.survivors) ∨
      f = (·.keepRosterListeners s.survivors)) ∧
    ∀ k, s.collect.2.get? k = if k ∈ s.survivors then (s.get? k).map f else none := by
  let t := { s with roots := s.roots.filter s.contains }
  let dead := s.handles.filter fun h => !s.survivors.contains h
  have hdead : ∀ k, k ∈ dead ↔ s.contains k = true ∧ k ∉ s.survivors := by
    intro k
    rw [List.mem_filter, mem_handles_iff]
    simp
  have hbury : ∀ k, (dead.foldl bury t).get? k = if k ∈ s.survivors then s.get? k else none := by
    intro k
    have hk : t.get? k = s.get? k := rfl
    rw [get?_foldl_bury, hk]
    simp only [hdead]
    by_cases hl : k ∈ s.survivors
    · simp [hl]
    · cases hn : s.get? k <;> simp [hl, hn, contains]
  have hs : s.collect.2 = if dead.isEmpty then dead.foldl bury t
      else (dead.foldl bury t).handles.foldl
        (fun s' h => s'.modify h (·.keepRosterListeners s.survivors)) (dead.foldl bury t) := rfl
  rw [hs]
  split
  · next he =>
    refine ⟨id, .inl ⟨rfl, fun h hc => ?_⟩, fun k => ?_⟩
    · by_contra hn
      have hm := (hdead h).2 ⟨hc, hn⟩
      rw [List.isEmpty_iff.1 he] at hm
      cases hm
    · rw [hbury, Option.map_id_fun, id]
  · refine ⟨_, .inr rfl, fun k => ?_⟩
    have hf : ∀ n : Node, (n.keepRosterListeners s.survivors).keepRosterListeners s.survivors =
        n.keepRosterListeners s.survivors := by
      intro n
      simp [Node.keepRosterListeners]
    rw [get?_foldl_modify hf]
    split
    · rw [hbury]
      split <;> rfl
    · next hk =>
      have hn : (dead.foldl bury t).get? k = none := by
        simpa [mem_handles_iff, contains] using hk
      rw [hn]
      rw [hbury] at hn
      split
      · next hl =>
        rw [if_pos hl] at hn
        rw [hn, Option.map_none]
      · rfl

/-- Apart from listeners, the nodes that are kept stay as they are. -/
theorem map_get?_collect {β : Type} (g : Node → β)
    (hg : ∀ n ls, g { n with listeners := ls } = g n) (s : Store) (k : NodeHandle) :
    (s.collect.2.get? k).map g = if k ∈ s.survivors then (s.get? k).map g else none := by
  obtain ⟨f, hf, hget⟩ := s.exists_get?_collect
  have hgf : g ∘ f = g := by
    obtain ⟨rfl, _⟩ | rfl := hf
    · rfl
    · exact funext fun n => hg n _
  rw [hget]
  split
  · rw [Option.map_map, hgf]
  · rfl

/-- What every drop and every change in place keeps is kept by collecting. -/
lemma collect_keep {P : Store → Prop} {s : Store} (hs : P s)
    (hsame : ∀ s s', s'.cells = s.cells → s'.vacant = s.vacant → P s → P s')
    (hdrop : ∀ s h, P s → P (s.drop h)) (hmodify : ∀ s h f, P s → P (s.modify h f)) :
    P s.collect.2 := by
  have hbury : ∀ s h, P s → P (s.bury h) := by
    intro s h hs
    unfold bury
    split
    · exact hs
    · exact hsame (s.drop h) _ rfl rfl (hdrop s h hs)
  unfold collect
  dsimp only
  have ht := List.foldlRecOn
    (({ s with roots := s.roots.filter s.contains } : Store).handles.filter fun h =>
      !({ s with roots := s.roots.filter s.contains } : Store).kept.contains h) bury
    (hsame s { s with roots := s.roots.filter s.contains } rfl rfl hs)
    fun s' hs' h _ => hbury s' h hs'
  split
  · exact ht
  · exact List.foldlRecOn _ _ ht fun s' hs' h _ => hmodify s' h _ hs'

/-- A handle that has been given out stays given out. -/
lemma Issued.collect {s : Store} {k : NodeHandle} (hk : s.Issued k) : s.collect.2.Issued k := by
  refine collect_keep (P := fun s => s.Issued k) hk ?_ ?_ ?_
  · intro s s' hc hv hi
    exact ((SamePlaces.of_cells hc hv).issued _).2 hi
  · exact fun s h hi => hi.drop h
  · exact fun s h f hi => issued_modify.2 hi

lemma contains_collect (s : Store) (k : NodeHandle) :
    s.collect.2.contains k = (decide (k ∈ s.survivors) && s.contains k) := by
  have h := map_get?_collect (fun _ => ()) (fun _ _ => rfl) s k
  have e := congrArg Option.isSome h
  rw [Option.isSome_map] at e
  rw [contains, e]
  split
  · next hk => simp [hk, contains]
  · next hk => simp [hk]

lemma content?_collect (s : Store) (k : NodeHandle) :
    s.collect.2.content? k = if k ∈ s.survivors then s.content? k else none :=
  map_get?_collect (·.content) (fun _ _ => rfl) s k

lemma held_collect (s : Store) (k : NodeHandle) (slot : Slot) :
    s.collect.2.held k slot = if k ∈ s.survivors then s.held k slot else [] := by
  rw [held, map_get?_collect (·.held slot) (fun _ _ => rfl)]
  split <;> rfl

lemma home?_collect (s : Store) (k : NodeHandle) :
    s.collect.2.home? k = if k ∈ s.survivors then s.home? k else none := by
  have hjoin : ∀ s : Store, s.home? k = ((s.get? k).map (·.home)).getD none := by
    intro s
    unfold home?
    cases s.get? k <;> rfl
  rw [hjoin, map_get?_collect (·.home) (fun _ _ => rfl), hjoin]
  split <;> rfl

lemma name_collect (s : Store) (k : NodeHandle) :
    s.collect.2.name k = if k ∈ s.survivors then s.name k else "" := by
  rw [name, map_get?_collect (·.name) (fun _ _ => rfl)]
  split <;> rfl

lemma rosterAt_collect (s : Store) (k : NodeHandle) (slot : Slot) :
    s.collect.2.rosterAt k slot = if k ∈ s.survivors then s.rosterAt k slot else {} := by
  rw [rosterAt, map_get?_collect (·.rosterAt slot) (fun _ _ => rfl)]
  split <;> rfl

lemma count_keepRosterListeners (n : Node) (kept : List NodeHandle) (o : NodeHandle) (slot : Slot) :
    (n.keepRosterListeners kept).listeners.count (.roster o slot) =
      if o ∈ kept then n.listeners.count (.roster o slot) else 0 := by
  unfold Node.keepRosterListeners
  split
  · next ho => rw [List.count_filter (by simpa using ho)]
  · next ho =>
    rw [List.count_eq_zero, List.mem_filter]
    simp [ho]

/-- The rosters of owners that are not kept are told no more.  There may be none of these before, as
listeners are looked through only if something is dropped. -/
lemma count_listeners_collect {s : Store} {c o : NodeHandle} {slot : Slot}
    (h0 : s.contains o = false → (s.listeners c).count (.roster o slot) = 0) :
    (s.collect.2.listeners c).count (.roster o slot) =
      if c ∈ s.survivors ∧ o ∈ s.survivors then (s.listeners c).count (.roster o slot) else 0 := by
  obtain ⟨f, hf, hget⟩ := s.exists_get?_collect
  unfold listeners at h0 ⊢
  rw [hget]
  by_cases hc : c ∈ s.survivors
  · cases hn : s.get? c with
    | none => simp
    | some n =>
      rw [hn] at h0
      simp only [hc, if_true, true_and, Option.map_some, Option.getD_some] at h0 ⊢
      obtain ⟨rfl, hall⟩ | rfl := hf
      · split
        · rfl
        · next ho => exact h0 (by simpa using fun h => ho (hall o h))
      · exact count_keepRosterListeners n _ o slot
  · simp [hc]

/-- Collecting keeps a store sound. -/
theorem Sound.collect {s : Store} (hs : s.Sound) : s.collect.2.Sound := by
  have hlive : ∀ {p}, s.collect.2.contains p = true → p ∈ s.survivors ∧ s.contains p = true := by
    intro p hp
    rw [contains_collect, Bool.and_eq_true, decide_eq_true_eq] at hp
    exact hp
  constructor
  · constructor
    · intro p c slot hslot hc
      rw [held_collect] at hc
      split at hc
      · next hp =>
        -- what a survivor owns survives with it
        rw [home?_collect, if_pos (mem_survivors_of_owns hs.shaped hp ⟨slot, hslot, hc⟩)]
        exact hs.home_of_held hslot hc
      · cases hc
    · intro p c slot hc hp
      obtain ⟨hp, hl⟩ := hlive hp
      rw [home?_collect] at hc
      split at hc
      · rw [held_collect, if_pos hp]
        exact hs.held_of_home hc hl
      · cases hc
    · intro p slot hslot
      rw [held_collect]
      split
      · exact hs.nodup p hslot
      · exact List.nodup_nil
    · apply wellFounded_isParent_of_le hs.acyclic
      intro p c hpc
      unfold IsParent at hpc ⊢
      rw [parent?_eq, home?_collect] at hpc
      split at hpc
      · rwa [parent?_eq]
      · cases hpc
  · apply collect_keep hs.intact
    · intro s s' hc hv hi
      exact (SamePlaces.of_cells hc hv).intact hi
    · exact fun s h hi => hi.drop h
    · exact fun s h f hi => hi.modify h f
  · intro k n hn
    -- listeners are no part of the shape of a node
    have h := map_get?_collect (fun n => { n with listeners := [] }) (fun _ _ => rfl) s k
    rw [hn, Option.map_some] at h
    split at h
    · obtain ⟨m, hm, e⟩ := Option.map_eq_some_iff.1 h.symm
      obtain ⟨h1, h2⟩ := hs.shaped k m hm
      have hm' : { m with listeners := [] }.Shaped := ⟨h1, h2⟩
      rw [e] at hm'
      exact ⟨hm'.slots_eq, hm'.single_slot⟩
    · cases h
  · intro c home hc
    rw [home?_collect] at hc
    split at hc
    · exact (hs.issued hc).collect
    · cases hc

end Semdoc.Store
