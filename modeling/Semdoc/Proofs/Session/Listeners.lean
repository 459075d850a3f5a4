import Semdoc.Proofs.Session.Naming
import Semdoc.Proofs.Store.Collection

/-!
# Listeners in a session

A node tells a new name to rosters of nodes that are there, and to watchers that are registered for it.
A watcher that is registered for a node is told by it as long as it is registered, and is registered no
longer than the node is there.
-/

namespace Semdoc

namespace Store

/-- The same watchers are registered. -/
structure SameRegister (s s' : Store) : Prop where
  watchers : s'.watchers = s.watchers
  nextWatcher : s'.nextWatcher = s.nextWatcher

namespace SameRegister

lemma refl (s : Store) : SameRegister s s := ⟨rfl, rfl⟩

lemma trans {s s' s'' : Store} (h : SameRegister s s') (h' : SameRegister s' s'') :
    SameRegister s s'' :=
  ⟨h'.watchers.trans h.watchers, h'.nextWatcher.trans h.nextWatcher⟩

lemma modify (s : Store) (h : NodeHandle) (f : Node → Node) : SameRegister s (s.modify h f) :=
  ⟨watchers_modify s h f, nextWatcher_modify s h f⟩

lemma create (s : Store) (name : String) (content : Content) :
    SameRegister s (s.create name content).2 := by
  unfold Store.create
  dsimp only
  split <;> exact ⟨rfl, rfl⟩

lemma foldl {α : Type} {f : Store → α → Store} (hf : ∀ s a, SameRegister s (f s a)) (s : Store)
    (as : List α) : SameRegister s (as.foldl f s) :=
  List.foldlRecOn as f (.refl s) fun s' hs' a _ => hs'.trans (hf s' a)

lemma invalidate (s : Store) (h : NodeHandle) : SameRegister s (s.invalidate h) :=
  foldl (fun s a => .modify s a _) s _

lemma vacate (s : Store) (o : NodeHandle) : SameRegister s (s.vacate o) := by
  unfold Store.vacate
  split
  · exact .modify s _ _
  · exact .refl s

lemma link (s : Store) (o : NodeHandle) (slot : Slot) (c : NodeHandle) :
    SameRegister s (s.link o slot c) := by
  unfold Store.link
  cases slot.isSingle <;> cases slot.isComposition <;>
    simp only [if_true, if_false, Bool.false_eq_true]
  · exact (SameRegister.modify _ _ _).trans (.modify _ _ _)
  · exact ((SameRegister.modify _ _ _).trans (.modify _ _ _)).trans (.modify _ _ _)
  · exact (SameRegister.vacate _ _).trans (.modify _ _ _)
  · exact ((SameRegister.vacate _ _).trans (.modify _ _ _)).trans (.modify _ _ _)

lemma unlink (s : Store) (o : NodeHandle) (slot : Slot) (c : NodeHandle) :
    SameRegister s (s.unlink o slot c) := by
  have h1 := (SameRegister.modify s o (·.take slot c (s.name c))).trans
    (.modify _ c (·.dropRosterListener o slot))
  unfold Store.unlink
  dsimp only
  split
  · exact h1.trans (.modify _ _ _)
  · exact h1

lemma setName (s : Store) (h : NodeHandle) (name : String) :
    SameRegister s (s.setName h name).2 := by
  have htell : ∀ (t : Store) (l : Listener), SameRegister t (t.tell (s.name h) name h l).2 := by
    intro t l
    cases l with
    | roster o slot => exact (SameRegister.modify t o _).trans (.invalidate _ o)
    | watcher k =>
      unfold tell
      dsimp only
      split <;> exact .refl t
  rw [snd_setName]
  split
  · have hn := (SameRegister.modify s h fun n => { n with name }).trans (.invalidate _ h)
    exact hn.trans (foldl htell _ _)
  · exact .refl s

end SameRegister

end Store

namespace Validating

open Store (SameRegister)

lemma sameRegister_passAll {depth : Nat}
    (hp : ∀ h st, SameRegister st.1 (pass depth h st).2.1) (hs : List NodeHandle)
    (r : Bool × State) : SameRegister r.2.1 (passAll depth hs r).2.1 := by
  induction hs generalizing r with
  | nil => exact .refl _
  | cons h rest ih => exact (hp h r.2).trans (ih (r.1 && (pass depth h r.2).1, (pass depth h r.2).2))

/-- Validation registers nobody. -/
lemma sameRegister_pass (depth : Nat) (h : NodeHandle) (st : State) :
    SameRegister st.1 (pass depth h st).2.1 := by
  induction depth generalizing h st with
  | zero => exact .refl _
  | succ depth ih =>
    obtain ⟨s, v⟩ := st
    rw [pass_succ]
    split
    · exact .refl s
    · split
      · exact .refl s
      · split
        · exact .refl s
        · next n _ _ _ _ =>
          have hall := sameRegister_passAll ih (s.neededBy h n)
            ((s.checkNode h n).value, s, (h, true) :: v)
          refine hall.trans ?_
          unfold settle
          dsimp only
          split
          · exact .modify _ h _
          · exact .refl _

end Validating

namespace Store

lemma sameRegister_validate (s : Store) (h : NodeHandle) :
    SameRegister s (s.validate h).value.2 := by
  rw [value_validate]
  exact Validating.sameRegister_pass _ h (s, [])

/-! ## What a change does to listeners -/

/-- Nobody is registered, and nothing is told newly but rosters of nodes that are there. -/
structure SameAudience (s s' : Store) : Prop extends SameRegister s s' where
  contains : ∀ {k}, s.contains k = true → s'.contains k = true
  watcher : ∀ k c, .watcher k ∈ s'.listeners c ↔ .watcher k ∈ s.listeners c
  roster : ∀ c o slot, .roster o slot ∈ s'.listeners c →
    .roster o slot ∈ s.listeners c ∨ s.contains o = true

/-- No change drops a node. -/
lemma Change.contains {s s' : Store} (hs : s.Sound) (h : Change s s') {k : NodeHandle}
    (hk : s.contains k = true) : s'.contains k = true := by
  rcases h.cases_quiet with h | ⟨name, content, rfl⟩ | ⟨o, slot, c, -, rfl⟩ | ⟨o, slot, c, -, -, -, rfl⟩
  · rwa [h.contains]
  · rw [Store.contains, hs.intact.get?_create]
    split
    · rfl
    · exact hk
  · rwa [(SameNodes.invalidate _ o).contains, contains_unlink]
  · rwa [(SameNodes.invalidate _ o).contains, contains_link]

lemma SameAudience.of_listeners {s s' : Store} (hr : SameRegister s s')
    (hc : ∀ {k}, s.contains k = true → s'.contains k = true)
    (hl : ∀ c, s'.listeners c = s.listeners c) : SameAudience s s' :=
  ⟨hr, hc, fun k c => by rw [hl], fun c o slot h => .inl (by rwa [hl] at h)⟩

lemma sameAudience_validate (s : Store) (h : NodeHandle) :
    SameAudience s (s.validate h).value.2 := by
  have hm := sameNodes_validate s h
  exact .of_listeners (sameRegister_validate s h) (fun {k} hk => (hm.contains k).trans hk)
    hm.listeners

lemma listeners_modify_of_eq (s : Store) (h k : NodeHandle) {f : Node → Node}
    (hf : ∀ n, (f n).listeners = n.listeners) : (s.modify h f).listeners k = s.listeners k := by
  rw [listeners, map_get?_modify (·.listeners) s h k hf, listeners]

/-- A node that leaves a slot is told to one roster less. -/
lemma sameAudience_unlink (s : Store) (o : NodeHandle) (slot : Slot) (c : NodeHandle) :
    SameAudience s ((s.unlink o slot c).invalidate o) := by
  have hi := SameNodes.invalidate (s.unlink o slot c) o
  have hr : SameRegister s ((s.unlink o slot c).invalidate o) :=
    (SameRegister.unlink s o slot c).trans (.invalidate _ o)
  have hcontains : ∀ {k}, s.contains k = true →
      ((s.unlink o slot c).invalidate o).contains k = true :=
    fun {k} hk => by rwa [hi.contains, contains_unlink]
  refine ⟨hr, hcontains, fun k d => ?_, fun d p sl hd => .inl ?_⟩
  · rw [hi.listeners, listeners_unlink]
    split
    · next e =>
      rw [e]
      exact List.mem_erase_of_ne (by simp)
    · rfl
  · rw [hi.listeners, listeners_unlink] at hd
    split at hd
    · next e =>
      rw [e]
      exact List.mem_of_mem_erase hd
    · exact hd

/-- A node that is entered in a slot tells its roster too, and that is one of a node that is there. -/
lemma sameAudience_link {s : Store} {o c : NodeHandle} (slot : Slot) (ho : s.contains o = true)
    (hc : s.contains c = true) : SameAudience s ((s.link o slot c).invalidate o) := by
  have hi := SameNodes.invalidate (s.link o slot c) o
  have hr : SameRegister s ((s.link o slot c).invalidate o) :=
    (SameRegister.link s o slot c).trans (.invalidate _ o)
  have hcontains : ∀ {k}, s.contains k = true →
      ((s.link o slot c).invalidate o).contains k = true :=
    fun {k} hk => by rwa [hi.contains, contains_link]
  refine ⟨hr, hcontains, fun k d => ?_, fun d p sl hd => ?_⟩
  · rw [hi.listeners, listeners_link c d hc]
    split
    · next e => simp [e.1]
    · rfl
  · rw [hi.listeners, listeners_link c d hc] at hd
    split at hd
    · next e =>
      rw [e.1]
      rcases List.mem_append.1 hd with hd | hd
      · exact .inl hd
      · cases List.mem_singleton.1 hd
        exact .inr ho
    · exact .inl hd

/-- Listeners change by links and by registrations only. -/
lemma Change.cases_audience {s s' : Store} (hs : s.Sound) (h : Change s s') :
    SameAudience s s' ∨ (∃ h, s' = (s.addWatcher h).2) ∨
      ∃ number, s' = (s.removeWatcher number).2 := by
  have hcontains : ∀ {k}, s.contains k = true → s'.contains k = true := h.contains hs
  cases h with
  | create name content he =>
    refine .inl (.of_listeners (.create s name content) hcontains fun c => ?_)
    rw [listeners, hs.intact.get?_create]
    split
    · next e =>
      rw [listeners, e, get?_nextHandle hs.intact]
      rfl
    · rfl
  | invalidate h =>
    exact .inl (.of_listeners (.invalidate s h) hcontains (SameNodes.invalidate s h).listeners)
  | revise h f hf hc =>
    exact .inl (.of_listeners (.modify s h _) hcontains
      fun c => listeners_modify_of_eq s h c fun _ => rfl)
  | sort h slot last hc =>
    refine .inl (.of_listeners (.modify s h _) hcontains fun c => ?_)
    exact listeners_modify_of_eq s h c fun n => (Node.SlotsOnly.editRoster _ _).listeners n
  | remove o slot c =>
    by_cases hc : c ∈ s.held o slot
    · rw [removeFrom_of_mem hc]
      exact .inl (sameAudience_unlink s o slot c)
    · rw [removeFrom_of_not_mem hc]
      exact .inl (.of_listeners (.refl s) id fun _ => rfl)
  | enter o slot c ha hl hfit hout =>
    obtain ⟨n, hn, -⟩ := ha
    exact .inl (sameAudience_link slot (contains_iff.2 ⟨n, hn⟩) hl)
  | rename h name =>
    refine .inl (.of_listeners (.setName s h name) hcontains fun c => ?_)
    rw [snd_setName]
    split
    · rw [(name_listeners_tellAll _ _ _ _ _ c).2, (SameNodes.invalidate _ h).listeners]
      exact listeners_modify_of_eq s h c fun _ => rfl
    · rfl
  | locate h l =>
    exact .inl (.of_listeners (.modify s h _) hcontains
      fun c => listeners_modify_of_eq s h c fun _ => rfl)
  | watch h => exact .inr (.inl ⟨h, rfl⟩)
  | unwatch number => exact .inr (.inr ⟨number, rfl⟩)
  | root h =>
    refine .inl ?_
    unfold addRoot
    split
    · exact .of_listeners (.refl s) id fun _ => rfl
    · exact .of_listeners ⟨rfl, rfl⟩ id fun _ => rfl
  | unroot h => exact .inl (.of_listeners ⟨rfl, rfl⟩ id fun _ => rfl)

lemma listeners_addWatcher (s : Store) (h k : NodeHandle) :
    (s.addWatcher h).2.listeners k =
      if k = h ∧ s.contains h = true then s.listeners h ++ [.watcher s.nextWatcher]
      else s.listeners k := by
  let t := { s with
    watchers := s.watchers ++ [Watcher.mk s.nextWatcher h], nextWatcher := s.nextWatcher + 1 }
  have hget : ∀ k, t.get? k = s.get? k := fun _ => rfl
  have hmod := get?_modify' t h k fun n =>
    { n with listeners := n.listeners ++ [Listener.watcher s.nextWatcher] }
  show (t.modify h _).listeners k = _
  by_cases hk : k = h
  · subst hk
    rw [listeners, hmod, hget, contains, listeners]
    cases s.get? k <;> simp
  · rw [listeners, hmod, hget, if_neg fun e => hk e.1, listeners]
    simp [hk]

lemma snd_removeWatcher (s : Store) (number : Nat) :
    (s.removeWatcher number).2.watchers = s.watchers.filter (·.number != number) ∧
      (s.removeWatcher number).2.nextWatcher = s.nextWatcher := by
  unfold removeWatcher
  split
  · next hw =>
    refine ⟨(List.filter_eq_self.2 fun w hmem => ?_).symm, rfl⟩
    simpa using List.find?_eq_none.1 hw w hmem
  · exact ⟨watchers_modify _ _ _, nextWatcher_modify _ _ _⟩

lemma mem_listeners_removeWatcher {s : Store} {number : Nat} {k : NodeHandle} {l : Listener} :
    l ∈ (s.removeWatcher number).2.listeners k ↔ l ∈ s.listeners k ∧
      ∀ w, s.watchers.find? (·.number == number) = some w → w.node = k → l ≠ .watcher number := by
  unfold removeWatcher
  cases hw : s.watchers.find? (·.number == number) with
  | none => simp
  | some w =>
    let t := { s with watchers := s.watchers.filter (·.number != number) }
    show l ∈ (t.modify w.node _).listeners k ↔ _
    have hget : ∀ k, t.get? k = s.get? k := fun _ => rfl
    have hmod := get?_modify' t w.node k fun n =>
      { n with listeners := n.listeners.filter (· != Listener.watcher number) }
    rw [listeners, hmod, hget, listeners]
    cases s.get? k with
    | none => simp
    | some n =>
      by_cases hk : k = w.node
      · simp [hk]
      · simp [hk, Ne.symm hk]

/-! ## What is told -/

/-- Rosters that are told are of nodes that are there, and watchers that are told are registered for the
node that tells them, each under a number of its own. -/
structure Attentive (s : Store) : Prop where
  roster : ∀ {c o : NodeHandle} {slot : Slot}, .roster o slot ∈ s.listeners c → s.contains o = true
  watcher : ∀ {c : NodeHandle} {k : Nat}, .watcher k ∈ s.listeners c →
    ∃ w ∈ s.watchers, w.number = k ∧ w.node = c
  lt : ∀ w ∈ s.watchers, w.number < s.nextWatcher
  nodup : (s.watchers.map (·.number)).Nodup

namespace Attentive

variable {s s' : Store}

lemma empty : Attentive {} := by
  have hnil : ∀ c, ({} : Store).listeners c = [] := by
    intro c
    rw [listeners, get?_empty]
    rfl
  refine ⟨fun h => ?_, fun h => ?_, fun w hw => absurd hw List.not_mem_nil, List.nodup_nil⟩
  · rw [hnil] at h
    cases h
  · rw [hnil] at h
    cases h

lemma eq_of_number (ha : s.Attentive) {w w' : Watcher} (hw : w ∈ s.watchers)
    (hw' : w' ∈ s.watchers) (e : w.number = w'.number) : w = w' :=
  List.inj_on_of_nodup_map ha.nodup hw hw' e

lemma of_sameAudience (ha : s.Attentive) (h : SameAudience s s') : s'.Attentive := by
  refine ⟨fun hc => ?_, fun hc => ?_, fun w hw => ?_, ?_⟩
  · exact h.contains ((h.roster _ _ _ hc).elim ha.roster id)
  · rw [h.watchers]
    exact ha.watcher ((h.watcher _ _).1 hc)
  · rw [h.watchers] at hw
    rw [h.nextWatcher]
    exact ha.lt w hw
  · rw [h.watchers]
    exact ha.nodup

lemma addWatcher (ha : s.Attentive) (h : NodeHandle) : (s.addWatcher h).2.Attentive := by
  have hw : (s.addWatcher h).2.watchers = s.watchers ++ [⟨s.nextWatcher, h⟩] :=
    watchers_modify _ _ _
  have hn : (s.addWatcher h).2.nextWatcher = s.nextWatcher + 1 :=
    nextWatcher_modify _ _ _
  have hc : ∀ k, (s.addWatcher h).2.contains k = s.contains k := (Quiet.addWatcher s h).contains
  have hl : ∀ {l c}, l ∈ (s.addWatcher h).2.listeners c → l ∈ s.listeners c ∨
      c = h ∧ l = .watcher s.nextWatcher := by
    intro l c hlc
    rw [listeners_addWatcher] at hlc
    split at hlc
    · next e => simpa [e.1] using hlc
    · exact .inl hlc
  refine ⟨fun hm => ?_, fun hm => ?_, fun w hm => ?_, ?_⟩
  · rw [hc]
    rcases hl hm with hm | ⟨-, e⟩
    · exact ha.roster hm
    · cases e
  · rw [hw]
    rcases hl hm with hm | ⟨rfl, e⟩
    · obtain ⟨w, hm, hw⟩ := ha.watcher hm
      exact ⟨w, List.mem_append_left _ hm, hw⟩
    · cases e
      exact ⟨_, List.mem_append_right _ (List.mem_singleton_self _), rfl, rfl⟩
  · rw [hw] at hm
    rw [hn]
    rcases List.mem_append.1 hm with hm | hm
    · exact Nat.lt_succ_of_lt (ha.lt w hm)
    · cases List.mem_singleton.1 hm
      exact Nat.lt_succ_self _
  · rw [hw, List.map_append, List.map_singleton, List.nodup_append_comm, List.singleton_append,
      List.nodup_cons]
    refine ⟨fun hm => ?_, ha.nodup⟩
    obtain ⟨w, hm, e⟩ := List.mem_map.1 hm
    exact absurd (ha.lt w hm) (Nat.not_lt.2 e.ge)

lemma removeWatcher (ha : s.Attentive) (number : Nat) :
    (s.removeWatcher number).2.Attentive := by
  obtain ⟨hw, hn⟩ := s.snd_removeWatcher number
  have hc : ∀ k, (s.removeWatcher number).2.contains k = s.contains k :=
    (Quiet.removeWatcher s number).contains
  refine ⟨fun hm => ?_, fun {c k} hm => ?_, fun w hm => ?_, ?_⟩
  · rw [hc]
    exact ha.roster (mem_listeners_removeWatcher.1 hm).1
  · obtain ⟨hm, hother⟩ := mem_listeners_removeWatcher.1 hm
    obtain ⟨w, hmem, rfl, rfl⟩ := ha.watcher hm
    refine ⟨w, ?_, rfl, rfl⟩
    rw [hw, List.mem_filter]
    refine ⟨hmem, bne_iff_ne.2 fun e => ?_⟩
    -- the one that is found under the number can be no other
    cases hf : s.watchers.find? (·.number == number) with
    | none => simpa [e] using List.find?_eq_none.1 hf w hmem
    | some w' =>
      have e' : w'.number = number := by simpa using List.find?_some hf
      have heq := ha.eq_of_number (List.mem_of_find?_eq_some hf) hmem (e'.trans e.symm)
      exact hother w' hf (congrArg Watcher.node heq) (congrArg Listener.watcher e)
  · rw [hw] at hm
    rw [hn]
    exact ha.lt w (List.mem_filter.1 hm).1
  · rw [hw]
    exact ha.nodup.sublist (List.filter_sublist.map _)

lemma change (ha : s.Attentive) (hs : s.Sound) (h : Change s s') : s'.Attentive := by
  rcases h.cases_audience hs with h | ⟨k, rfl⟩ | ⟨number, rfl⟩
  · exact ha.of_sameAudience h
  · exact ha.addWatcher k
  · exact ha.removeWatcher number

/-- A watcher that a kept node tells is told by no other, and so stays registered. -/
lemma mem_watchers_collect (ha : s.Attentive) {w : Watcher} (hw : w ∈ s.watchers)
    (hn : w.node ∈ s.survivors) : w ∈ s.collect.2.watchers := by
  refine Store.mem_watchers_collect.2 ⟨hw, fun d hd hl => ?_⟩
  obtain ⟨w', hw', e, rfl⟩ := ha.watcher hl
  rw [ha.eq_of_number hw' hw e] at hd
  exact (mem_dropped_iff.1 hd).2 hn

lemma collect (ha : s.Attentive) (hs : s.Sound) : s.collect.2.Attentive := by
  refine ⟨fun hm => ?_, fun hm => ?_, fun w hw => ?_, ?_⟩
  · exact ((mem_listeners_collect hs ha.roster).1 hm).2.2 _ _ rfl
  · obtain ⟨hc, hm, -⟩ := (mem_listeners_collect hs ha.roster).1 hm
    obtain ⟨w, hw, rfl, rfl⟩ := ha.watcher hm
    exact ⟨w, ha.mem_watchers_collect hw hc, rfl, rfl⟩
  · rw [nextWatcher_collect]
    exact ha.lt w (Store.mem_watchers_collect.1 hw).1
  · rw [watchers_collect]
    exact ha.nodup.sublist (List.filter_sublist.map _)

end Attentive

/-- Every store in a session is attentive. -/
theorem attentive_after (steps : List SessionStep) : (after steps).Attentive := by
  induction steps using List.reverseRecOn with
  | nil => exact .empty
  | append_singleton steps step ih =>
    have hs := sound_after steps
    rw [after_append]
    cases step with
    | operate op => exact ((op.changes hs).keep (fun _ _ hs ha h => ha.change hs h) hs ih).2
    | validate h => exact ih.of_sameAudience (sameAudience_validate _ h)
    | collect => exact ih.collect hs

/-! ## Watchers that stay -/

/-- As long as a watcher is registered under a number, a node tells it. -/
structure Heeds (s : Store) (h : NodeHandle) (k : Nat) : Prop where
  lt : k < s.nextWatcher
  told : ∀ w ∈ s.watchers, w.number = k → .watcher k ∈ s.listeners h

lemma contains_of_mem_listeners {s : Store} {h : NodeHandle} {l : Listener}
    (hl : l ∈ s.listeners h) : s.contains h = true := by
  rw [listeners] at hl
  cases hn : s.get? h with
  | none =>
    rw [hn] at hl
    cases hl
  | some n => exact contains_iff.2 ⟨n, hn⟩

namespace Heeds

variable {s s' : Store} {h : NodeHandle} {k : Nat}

/-- A node that is there heeds a new watcher. -/
lemma of_addWatcher (hh : s.contains h = true) : (s.addWatcher h).2.Heeds h s.nextWatcher := by
  have hn : (s.addWatcher h).2.nextWatcher = s.nextWatcher + 1 := nextWatcher_modify _ _ _
  refine ⟨hn ▸ Nat.lt_succ_self _, fun _ _ _ => ?_⟩
  rw [listeners_addWatcher, if_pos ⟨rfl, hh⟩]
  exact List.mem_append_right _ (List.mem_singleton_self _)

lemma of_sameAudience (hk : s.Heeds h k) (hs : SameAudience s s') : s'.Heeds h k := by
  refine ⟨hs.nextWatcher ▸ hk.lt, fun w hw e => ?_⟩
  rw [hs.watchers] at hw
  exact (hs.watcher k h).2 (hk.told w hw e)

lemma addWatcher (hk : s.Heeds h k) (d : NodeHandle) : (s.addWatcher d).2.Heeds h k := by
  have hn : (s.addWatcher d).2.nextWatcher = s.nextWatcher + 1 := nextWatcher_modify _ _ _
  have hw : (s.addWatcher d).2.watchers = s.watchers ++ [⟨s.nextWatcher, d⟩] :=
    watchers_modify _ _ _
  refine ⟨hn ▸ Nat.lt_succ_of_lt hk.lt, fun w hm e => ?_⟩
  rw [hw] at hm
  rcases List.mem_append.1 hm with hm | hm
  · have hl := hk.told w hm e
    rw [listeners_addWatcher]
    split
    · next hd => exact List.mem_append_left _ (hd.1 ▸ hl)
    · exact hl
  · cases List.mem_singleton.1 hm
    exact absurd e hk.lt.ne'

lemma removeWatcher (hk : s.Heeds h k) (number : Nat) :
    (s.removeWatcher number).2.Heeds h k := by
  obtain ⟨hw, hn⟩ := s.snd_removeWatcher number
  refine ⟨hn ▸ hk.lt, fun w hm e => ?_⟩
  rw [hw, List.mem_filter, bne_iff_ne] at hm
  refine mem_listeners_removeWatcher.2 ⟨hk.told w hm.1 e, fun _ _ _ e' => ?_⟩
  cases e'
  exact hm.2 e

lemma change (hk : s.Heeds h k) (hs : s.Sound) (hc : Change s s') : s'.Heeds h k := by
  rcases hc.cases_audience hs with hc | ⟨d, rfl⟩ | ⟨number, rfl⟩
  · exact hk.of_sameAudience hc
  · exact hk.addWatcher d
  · exact hk.removeWatcher number

/-- A watcher that is still registered is told by no dropped node. -/
lemma collect (hk : s.Heeds h k) (ha : s.Attentive) (hs : s.Sound) : s.collect.2.Heeds h k := by
  refine ⟨s.nextWatcher_collect ▸ hk.lt, fun w hw e => ?_⟩
  obtain ⟨hw, hd⟩ := Store.mem_watchers_collect.1 hw
  have hl := hk.told w hw e
  refine (mem_listeners_collect hs ha.roster).2 ⟨?_, hl, fun _ _ e => nomatch e⟩
  by_contra hn
  exact hd h (mem_dropped_iff.2 ⟨contains_of_mem_listeners hl, hn⟩) (e ▸ hl)

lemma step (hk : s.Heeds h k) (ha : s.Attentive) (hs : s.Sound) (step : SessionStep) :
    (step.run s).Heeds h k := by
  cases step with
  | operate op =>
    have hchange : ∀ t t', t.Sound → t.Heeds h k → Change t t' → t'.Heeds h k :=
      fun _ _ hs hk hc => hk.change hs hc
    exact ((op.changes hs).keep hchange hs hk).2
  | validate d => exact hk.of_sameAudience (sameAudience_validate s d)
  | collect => exact hk.collect ha hs

end Heeds

/-- A node goes on to heed a watcher that was registered for it when it was there. -/
theorem heeds_after (before since : List SessionStep) {h : NodeHandle}
    (hh : (after before).contains h = true) :
    (after (before ++ .operate (.addWatcher h) :: since)).Heeds h (after before).nextWatcher := by
  induction since using List.reverseRecOn with
  | nil =>
    rw [after_append]
    exact .of_addWatcher hh
  | append_singleton since step ih =>
    rw [← List.cons_append, ← List.append_assoc, after_append]
    exact ih.step (attentive_after _) (sound_after _) step

end Store

end Semdoc
