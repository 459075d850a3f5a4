import Mathlib.Data.List.Nodup
import Semdoc.Proofs.Store.Drop

/-!
# What collecting keeps

Collecting keeps the nodes that a live root owns, directly or not, and drops all others.  A node that
stays forgets the rosters of dropped owners, and a watcher goes with the node that tells it.  After that
there is nothing left to collect.
-/

namespace Semdoc.Store

open Relation

/-- A node is a live root, or some live root owns it, directly or not. -/
def Rooted (s : Store) (h : NodeHandle) : Prop :=
  ∃ r ∈ s.roots, s.contains r = true ∧ ReflTransGen s.Owns r h

/-- The nodes that collecting drops. -/
def dropped (s : Store) : List NodeHandle := s.handles.filter fun h => !s.survivors.contains h

section Rooted

variable {s : Store} {h c : NodeHandle}

lemma Rooted.contains (hs : s.Forest) (hh : s.Rooted h) : s.contains h = true := by
  obtain ⟨r, -, hl, hrh⟩ := hh
  rcases ReflTransGen.cases_tail hrh with rfl | ⟨p, -, hp⟩
  · exact hl
  · exact hs.contains_of_owns hp

/-- Nothing but a root is rooted without its owner. -/
lemma Rooted.root_or_owner (hs : s.Forest) {home : Home} (hh : s.Rooted h)
    (hhome : s.home? h = some home) : s.isRoot h = true ∨ s.Rooted home.owner := by
  obtain ⟨r, hr, hl, hrh⟩ := hh
  rcases ReflTransGen.cases_tail hrh with rfl | ⟨p, hrp, hp⟩
  · exact .inl (List.contains_iff_mem.2 hr)
  · right
    have e : s.IsParent home.owner h := isParent_of_home? hhome
    obtain rfl : p = home.owner := Option.some.inj ((hs.isParent_of_owns hp).symm.trans e)
    exact ⟨r, hr, hl, hrp⟩

lemma Shaped.mem_owned_iff (hs : s.Shaped) {h c : NodeHandle} : c ∈ s.owned h ↔ s.Owns h c := by
  unfold owned Owns
  cases hn : s.get? h with
  | none => simp [held, hn]
  | some n =>
    simp only [held_of_get? hn]
    exact (hs h n hn).mem_owned_iff

/-- The nodes that collecting keeps are the rooted ones. -/
theorem mem_survivors_iff (hs : s.Sound) : h ∈ s.survivors ↔ s.Rooted h := by
  have howned : ∀ p c, c ∈ { s with roots := s.roots.filter s.contains }.owned p ↔ s.Owns p c :=
    fun p c => hs.shaped.mem_owned_iff
  rw [survivors, mem_kept_iff]
  simp only [howned, List.mem_filter, and_assoc]
  rfl

end Rooted

/-! ## What is dropped -/

lemma nodup_handles (s : Store) : s.handles.Nodup := by
  have hplace : ∀ i j, s.handleAt i = s.handleAt j → i = j := by
    intro i j e
    exact Nat.succ.inj (congrArg NodeHandle.place e)
  exact (List.nodup_range.map_on fun i _ j _ e => hplace i j e).filter _

lemma mem_dropped_iff {s : Store} {h : NodeHandle} :
    h ∈ s.dropped ↔ s.contains h = true ∧ h ∉ s.survivors := by
  rw [dropped, List.mem_filter, mem_handles_iff]
  simp

lemma fst_collect (s : Store) : s.collect.1 = s.dropped.length := rfl

lemma snd_collect (s : Store) : s.collect.2 =
    if s.dropped.isEmpty then
      s.dropped.foldl bury { s with roots := s.roots.filter s.contains }
    else
      (s.dropped.foldl bury { s with roots := s.roots.filter s.contains }).handles.foldl
        (fun t h => t.modify h (·.keepRosterListeners s.survivors))
        (s.dropped.foldl bury { s with roots := s.roots.filter s.contains }) := rfl

/-- Where nothing is dropped, only dead roots are forgotten. -/
lemma collect_of_dropped_eq_nil {s : Store} (h : s.dropped = []) :
    s.collect = (0, { s with roots := s.roots.filter s.contains }) := by
  have h1 : s.collect.1 = 0 := by rw [fst_collect, h, List.length_nil]
  have h2 : s.collect.2 = { s with roots := s.roots.filter s.contains } := by
    rw [snd_collect, h]
    rfl
  rw [← h1, ← h2]

lemma watchers_modify (s : Store) (h : NodeHandle) (f : Node → Node) :
    (s.modify h f).watchers = s.watchers := by
  unfold modify
  split <;> rfl

lemma nextWatcher_modify (s : Store) (h : NodeHandle) (f : Node → Node) :
    (s.modify h f).nextWatcher = s.nextWatcher := by
  unfold modify
  split <;> rfl

lemma roots_modify (s : Store) (h : NodeHandle) (f : Node → Node) :
    (s.modify h f).roots = s.roots := by
  unfold modify
  split <;> rfl

lemma snd_bury (s : Store) (h : NodeHandle) :
    (s.bury h).roots = s.roots ∧ (s.bury h).nextWatcher = s.nextWatcher := by
  unfold bury
  split
  · exact ⟨rfl, rfl⟩
  · show (s.drop h).roots = s.roots ∧ (s.drop h).nextWatcher = s.nextWatcher
    unfold drop
    split <;> exact ⟨rfl, rfl⟩

lemma listeners_bury (s : Store) (h k : NodeHandle) :
    (s.bury h).listeners k = if k = h then [] else s.listeners k := by
  rw [listeners, get?_bury]
  split <;> rfl

lemma watchers_bury (s : Store) (h : NodeHandle) :
    (s.bury h).watchers =
      s.watchers.filter fun w => !(s.listeners h).contains (.watcher w.number) := by
  unfold bury listeners
  cases s.get? h with
  | none => exact (List.filter_eq_self.2 fun _ _ => rfl).symm
  | some n =>
    have hd : (s.drop h).watchers = s.watchers := by
      unfold drop
      split <;> rfl
    show (s.drop h).watchers.filter _ = _
    rw [hd]
    rfl

/-- A watcher goes with the first dropped node that tells it. -/
lemma watchers_foldl_bury (hs : List NodeHandle) (s : Store) :
    (hs.foldl bury s).watchers =
      s.watchers.filter fun w => hs.all fun h => !(s.listeners h).contains (.watcher w.number) := by
  induction hs generalizing s with
  | nil => exact (List.filter_eq_self.2 fun _ _ => rfl).symm
  | cons h r ih =>
    rw [List.foldl_cons, ih, watchers_bury, List.filter_filter]
    refine List.filter_congr fun w _ => ?_
    rw [List.all_cons, Bool.and_comm, Bool.eq_iff_iff, Bool.and_eq_true, Bool.and_eq_true,
      List.all_eq_true, List.all_eq_true]
    refine and_congr_right fun hw => forall₂_congr fun k _ => ?_
    rw [listeners_bury]
    split
    · next e => simpa [e] using hw
    · rfl

/-- What is no matter of nodes and watchers does not change but for dead roots. -/
lemma collect_aside {β : Type} (g : Store → β) (hbury : ∀ t h, g (t.bury h) = g t)
    (hmodify : ∀ t h f, g (t.modify h f) = g t) (s : Store) :
    g s.collect.2 = g { s with roots := s.roots.filter s.contains } := by
  have hb : g (s.dropped.foldl bury { s with roots := s.roots.filter s.contains }) =
      g { s with roots := s.roots.filter s.contains } :=
    List.foldlRecOn s.dropped bury (motive := fun t => g t = g _) rfl
      fun t ht h _ => (hbury t h).trans ht
  rw [snd_collect]
  split
  · exact hb
  · refine Eq.trans ?_ hb
    exact List.foldlRecOn _ _ (motive := fun t => g t = g _) rfl
      fun t ht h _ => (hmodify t h _).trans ht

lemma roots_collect (s : Store) : s.collect.2.roots = s.roots.filter s.contains :=
  collect_aside (·.roots) (fun t h => (t.snd_bury h).1) roots_modify s

lemma nextWatcher_collect (s : Store) : s.collect.2.nextWatcher = s.nextWatcher :=
  collect_aside (·.nextWatcher) (fun t h => (t.snd_bury h).2) nextWatcher_modify s

lemma watchers_collect (s : Store) : s.collect.2.watchers =
    s.watchers.filter fun w =>
      s.dropped.all fun h => !(s.listeners h).contains (.watcher w.number) := by
  let t := { s with roots := s.roots.filter s.contains }
  have hb : (s.dropped.foldl bury t).watchers = t.watchers.filter fun w =>
      s.dropped.all fun h => !(t.listeners h).contains (.watcher w.number) :=
    watchers_foldl_bury s.dropped t
  rw [snd_collect]
  split
  · exact hb
  · refine Eq.trans ?_ hb
    exact List.foldlRecOn _ _ (motive := fun u : Store => u.watchers = _) rfl
      fun u hu h _ => (watchers_modify u h _).trans hu

lemma mem_watchers_collect {s : Store} {w : Watcher} :
    w ∈ s.collect.2.watchers ↔
      w ∈ s.watchers ∧ ∀ h ∈ s.dropped, .watcher w.number ∉ s.listeners h := by
  rw [watchers_collect, List.mem_filter]
  simp

/-! ## What is kept -/

lemma contains_collect_iff {s : Store} (hs : s.Sound) {h : NodeHandle} :
    s.collect.2.contains h = true ↔ s.Rooted h := by
  rw [contains_collect, Bool.and_eq_true, decide_eq_true_eq, mem_survivors_iff hs]
  exact and_iff_left_of_imp (·.contains hs.toForest)

/-- The rosters of owners that are kept are told as before, those of others no more.  Every listener
was a roster of a live owner before, so that nothing is missed where nothing is dropped. -/
theorem get?_collect {s : Store} (hs : s.Sound)
    (hlive : ∀ {c o slot}, .roster o slot ∈ s.listeners c → s.contains o = true) (h : NodeHandle) :
    s.collect.2.get? h = if h ∈ s.survivors then
      (s.get? h).map (·.keepRosterListeners s.collect.2.handles) else none := by
  have hkept : ∀ o, s.collect.2.handles.contains o = s.survivors.contains o := by
    intro o
    rw [Bool.eq_iff_iff, List.contains_iff_mem, List.contains_iff_mem, mem_handles_iff,
      contains_collect_iff hs, mem_survivors_iff hs]
  have hsame : ∀ n : Node, n.keepRosterListeners s.collect.2.handles =
      n.keepRosterListeners s.survivors := by
    intro n
    simp only [Node.keepRosterListeners, hkept]
  simp only [hsame]
  obtain ⟨f, hf, hget⟩ := s.exists_get?_collect
  rw [hget]
  split
  · cases hn : s.get? h with
    | none => rfl
    | some n =>
      obtain ⟨rfl, hall⟩ | rfl := hf
      · have hfilter : n.keepRosterListeners s.survivors = n := by
          unfold Node.keepRosterListeners
          rw [List.filter_eq_self.2]
          intro l hl
          cases l with
          | watcher _ => rfl
          | roster o slot =>
            have ho : .roster o slot ∈ s.listeners h := by rwa [listeners, hn]
            exact List.contains_iff_mem.2 (hall o (hlive ho))
        rw [Option.map_some, Option.map_some, hfilter, id]
      · rfl
  · rfl

/-- A node that is kept tells the watchers that it told before, and the rosters of owners that are
kept. -/
lemma mem_listeners_collect {s : Store} (hs : s.Sound)
    (hlive : ∀ {c o slot}, .roster o slot ∈ s.listeners c → s.contains o = true)
    {c : NodeHandle} {l : Listener} : l ∈ s.collect.2.listeners c ↔
      c ∈ s.survivors ∧ l ∈ s.listeners c ∧
        ∀ o slot, l = .roster o slot → s.collect.2.contains o = true := by
  rw [listeners, get?_collect hs hlive]
  split
  · next hc =>
    rw [listeners]
    cases s.get? c with
    | none => simp
    | some n =>
      cases l <;> simp [hc, Node.keepRosterListeners, mem_handles_iff]
  · next hc => simp [hc]

lemma owns_collect_iff {s : Store} {p c : NodeHandle} (hp : p ∈ s.survivors) :
    s.collect.2.Owns p c ↔ s.Owns p c := by
  unfold Owns
  simp only [held_collect, hp, if_true]

/-- What is kept is rooted after that as before. -/
lemma Rooted.collect {s : Store} (hs : s.Sound) {h : NodeHandle} (hh : s.Rooted h) :
    s.collect.2.Rooted h := by
  obtain ⟨r, hr, hl, hrh⟩ := hh
  have hroot : s.Rooted r := ⟨r, hr, hl, .refl⟩
  refine ⟨r, ?_, (contains_collect_iff hs).2 hroot, ?_⟩
  · rw [roots_collect]
    exact List.mem_filter.2 ⟨hr, hl⟩
  · clear hroot
    induction hrh with
    | refl => exact .refl
    | @tail p c hrp hc ih =>
      have hp : p ∈ s.survivors := (mem_survivors_iff hs).2 ⟨r, hr, hl, hrp⟩
      exact ih.tail ((owns_collect_iff hp).2 hc)

/-- Collecting again drops nothing and changes nothing. -/
theorem collect_collect {s : Store} (hs : s.Sound) :
    s.collect.2.collect = (0, s.collect.2) := by
  have hnil : s.collect.2.dropped = [] := by
    refine List.eq_nil_iff_forall_not_mem.2 fun h hh => ?_
    obtain ⟨hc, hn⟩ := mem_dropped_iff.1 hh
    rw [mem_survivors_iff hs.collect] at hn
    exact hn (((contains_collect_iff hs).1 hc).collect hs)
  have hroots : s.collect.2.roots.filter s.collect.2.contains = s.collect.2.roots := by
    rw [List.filter_eq_self, roots_collect]
    intro r hr
    obtain ⟨hr, hl⟩ := List.mem_filter.1 hr
    exact (contains_collect_iff hs).2 ⟨r, hr, hl, .refl⟩
  rw [collect_of_dropped_eq_nil hnil, hroots]

end Semdoc.Store
