import Semdoc.Proofs.Store.Change
import Semdoc.Proofs.Store.Drop

/-!
# Marks that stay

A mark stays only as long as nothing about its node and the nodes that it owns changes, directly or
not.  This holds for every elementary change, and for dropping nodes.
-/

namespace Semdoc.Store

open Relation

/-- A node has the same name, the same content and the same nodes in its slots. -/
structure Unchanged (s s' : Store) (k : NodeHandle) : Prop where
  name : s'.name k = s.name k
  content? : s'.content? k = s.content? k
  held : ∀ slot, s'.held k slot = s.held k slot

namespace Unchanged

variable {s s' s'' : Store} {k : NodeHandle}

lemma refl (s : Store) (k : NodeHandle) : Unchanged s s k := ⟨rfl, rfl, fun _ => rfl⟩

lemma trans (h : Unchanged s s' k) (h' : Unchanged s' s'' k) : Unchanged s s'' k :=
  ⟨h'.name.trans h.name, h'.content?.trans h.content?,
    fun slot => (h'.held slot).trans (h.held slot)⟩

/-- A handle reaches a node with the same name, content and slots. -/
lemma of_map {f : Node → Node} (h : s'.get? k = (s.get? k).map f)
    (hf : ∀ n, (f n).name = n.name ∧ (f n).content = n.content ∧
      ∀ slot, (f n).held slot = n.held slot) : Unchanged s s' k := by
  refine ⟨?_, ?_, fun slot => ?_⟩
  · rw [Store.name, h, Option.map_map, Store.name]
    congr 2
    exact funext fun n => (hf n).1
  · rw [Store.content?, h, Option.map_map, Store.content?]
    congr 1
    exact funext fun n => (hf n).2.1
  · rw [Store.held, h, Option.map_map, Store.held]
    congr 2
    exact funext fun n => (hf n).2.2 slot

lemma of_get? (h : s'.get? k = s.get? k) : Unchanged s s' k :=
  ⟨by rw [Store.name, h, Store.name], by rw [Store.content?, h, Store.content?],
    fun slot => by rw [Store.held, h, Store.held]⟩

lemma of_sameNodes (h : SameNodes s s') : Unchanged s s' k :=
  ⟨h.name k, h.map_get? (·.content) (fun _ => rfl) k, fun slot => h.held k slot⟩

lemma modify (s : Store) (h k : NodeHandle) {f : Node → Node}
    (hf : ∀ n, (f n).name = n.name ∧ (f n).content = n.content ∧
      ∀ slot, (f n).held slot = n.held slot) : Unchanged s (s.modify h f) k := by
  apply of_map (f := fun n => if k = h then f n else n) (get?_modify' s h k f)
  intro n
  split
  · exact hf n
  · exact ⟨rfl, rfl, fun _ => rfl⟩

/-- Nothing but the node that is changed changes. -/
lemma modify_of_ne (s : Store) {h : NodeHandle} (f : Node → Node) (hk : k ≠ h) :
    Unchanged s (s.modify h f) k := by
  apply of_get?
  rw [get?_modify, if_neg hk]

end Unchanged

/-- Marks stay, if they do, with nodes of which nothing changes, nor anything that they own. -/
def Retains (s s' : Store) : Prop :=
  ∀ n, s'.isValidated n = true →
    s.isValidated n = true ∧ ∀ m, ReflTransGen s.Owns n m → Unchanged s s' m

lemma Unchanged.owns_iff {s s' : Store} {p c : NodeHandle} (h : Unchanged s s' p) :
    s'.Owns p c ↔ s.Owns p c := by
  unfold Owns
  simp only [h.held]

/-- Where nothing changes below a node, it owns the same nodes. -/
lemma Unchanged.reflTransGen_owns_iff {s s' : Store} {n m : NodeHandle}
    (h : ∀ m, ReflTransGen s.Owns n m → Unchanged s s' m) :
    ReflTransGen s'.Owns n m ↔ ReflTransGen s.Owns n m := by
  constructor
  · intro hm
    induction hm with
    | refl => exact .refl
    | tail _ hc ih => exact ih.tail ((h _ ih).owns_iff.1 hc)
  · intro hm
    induction hm with
    | refl => exact .refl
    | tail hp hc ih => exact ih.tail ((h _ hp).owns_iff.2 hc)

namespace Retains

variable {s s' s'' : Store}

lemma refl (s : Store) : Retains s s := fun _ hn => ⟨hn, fun m _ => .refl s m⟩

lemma trans (h : Retains s s') (h' : Retains s' s'') : Retains s s'' := by
  intro n hn
  obtain ⟨hn', hu'⟩ := h' n hn
  obtain ⟨hn, hu⟩ := h n hn'
  exact ⟨hn, fun m hm => (hu m hm).trans (hu' m ((Unchanged.reflTransGen_owns_iff hu).2 hm))⟩

/-- Nothing changes but marks that are removed. -/
lemma of_unchanged (hm : ∀ k, s'.isValidated k = true → s.isValidated k = true)
    (hk : ∀ k, Unchanged s s' k) : Retains s s' :=
  fun n hn => ⟨hm n hn, fun m _ => hk m⟩

/-- One node changes, and neither it nor its owners are marked after that. -/
lemma of_clear (hs : s.Forest) (o : NodeHandle)
    (hm : ∀ k, s'.isValidated k = true → s.isValidated k = true)
    (hk : ∀ k, k ≠ o → Unchanged s s' k)
    (hc : ∀ a, ReflTransGen s.IsParent a o → s'.isValidated a = false) : Retains s s' := by
  refine fun n hn => ⟨hm n hn, fun m hnm => hk m ?_⟩
  rintro rfl
  -- a marked node that owns the one that changes is above it, and so it is not marked after all
  have hup := ReflTransGen.mono (fun _ _ => hs.isParent_of_owns) _ _ hnm
  rw [hc n hup] at hn
  cases hn

/-- One node without marked owners is changed in place. -/
lemma modify (hs : s.Forest) {h : NodeHandle} (hc : s.Clear h) {f : Node → Node}
    (hf : ∀ n, (f n).validated = n.validated) : Retains s (s.modify h f) := by
  have hm := fun k => s.isValidated_modify h k hf
  refine of_clear hs h (fun k hk => hm k ▸ hk) (fun k hk => .modify_of_ne s f hk) fun a ha => ?_
  rw [hm]
  exact hc a ha

lemma invalidate (s : Store) (h : NodeHandle) : Retains s (s.invalidate h) := by
  refine of_unchanged (fun k hk => ?_) fun k => .of_sameNodes (.invalidate s h)
  rw [isValidated_invalidate, Bool.and_eq_true] at hk
  exact hk.1

/-- What is kept beside the places does not matter. -/
lemma of_cells (hc : s'.cells = s.cells) : Retains s s' := by
  have hget : ∀ k, s'.get? k = s.get? k := fun k => get?_congr fun i _ => by rw [hc]
  refine of_unchanged (fun k hk => ?_) fun k => .of_get? (hget k)
  rwa [isValidated, hget] at hk

/-- What shows neither in names nor in contents and slots does not matter. -/
lemma modify_aside (s : Store) (h : NodeHandle) {f : Node → Node}
    (hf : ∀ n, (f n).name = n.name ∧ (f n).content = n.content ∧
      ∀ slot, (f n).held slot = n.held slot) (hv : ∀ n, (f n).validated = n.validated) :
    Retains s (s.modify h f) := by
  refine of_unchanged (fun k hk => ?_) fun k => .modify s h k hf
  rwa [isValidated_modify s h k hv] at hk

lemma create (hs : s.Sound) (name : String) (content : Content) :
    Retains s (s.create name content).2 := by
  have hget := hs.intact.get?_create name content
  intro n hn
  have hne : n ≠ s.nextHandle := by
    rintro rfl
    rw [isValidated, hget, if_pos rfl] at hn
    cases hn
  rw [isValidated, hget, if_neg hne] at hn
  refine ⟨hn, fun m hm => .of_get? ?_⟩
  rw [hget, if_neg]
  -- nothing owns a node that is only now given out
  rcases ReflTransGen.cases_tail hm with rfl | ⟨p, _, hp⟩
  · exact hne
  · exact ne_nextHandle hs.intact (hs.contains_of_owns hp)

/-- One node changes and is invalidated after that, and no node above it gets another owner. -/
lemma of_invalidate (hs : s.Sound) (hs' : s'.Sound) (o : NodeHandle)
    (hm : ∀ k, s'.isValidated k = s.isValidated k) (hk : ∀ k, k ≠ o → Unchanged s s' k)
    (hp : ∀ p k, ReflTransGen s.IsParent k o → s.IsParent p k → s'.IsParent p k) :
    Retains s (s'.invalidate o) := by
  have hi := SameNodes.invalidate s' o
  refine of_clear hs.toForest o (fun k hk => ?_) (fun k hne => (hk k hne).trans (.of_sameNodes hi))
    fun a ha => hs'.clear_invalidate o a ?_
  · rw [isValidated_invalidate, hm, Bool.and_eq_true] at hk
    exact hk.1
  · rw [hi.isParent]
    -- the way up to a node above is still there after the change
    induction ha using ReflTransGen.head_induction_on with
    | refl => exact .refl
    | head hpk hk ih => exact ih.head (hp _ _ hk hpk)

lemma unlink (hs : s.Sound) {o c : NodeHandle} {slot : Slot} (hc : c ∈ s.held o slot) :
    Retains s ((s.unlink o slot c).invalidate o) := by
  refine of_invalidate hs (hs.unlink hc) o (fun k => isValidated_unlink k) (fun k hk => ?_)
    fun p k hk hpk => ?_
  · apply Unchanged.of_map (s.get?_unlink o slot c k)
    intro n
    rw [Node.unlinked, if_neg hk]
    exact ⟨rfl, rfl, fun _ => rfl⟩
  · unfold IsParent at hpk ⊢
    rw [parent?_eq, home?_unlink, if_neg, ← parent?_eq]
    · exact hpk
    · rintro ⟨rfl, hslot⟩
      have ho := hs.isParent_of_owns ⟨slot, hslot, hc⟩
      exact not_transGen_self hs.acyclic k (.tail' hk ho)

lemma link (hs : s.Sound) {o c : NodeHandle} {slot : Slot} (ha : s.Accepts o slot)
    (hc : s.contains c = true)
    (hout : slot.isComposition = true →
      (∀ p sl, sl.isComposition = true → c ∉ s.held p sl) ∧ ¬ ReflTransGen s.IsParent c o) :
    Retains s ((s.link o slot c).invalidate o) := by
  refine of_invalidate hs (hs.link ha hc hout) o (fun k => isValidated_link c k) (fun k hk => ?_)
    fun p k hk hpk => ?_
  · apply Unchanged.of_map (s.get?_link o slot c k)
    intro n
    rw [Node.linked, if_neg hk]
    exact ⟨rfl, rfl, fun _ => rfl⟩
  · unfold IsParent at hpk ⊢
    rw [parent?_eq, home?_link c k hc, if_neg, if_neg, ← parent?_eq]
    · exact hpk
    · intro hroom
      obtain ⟨hl, hm⟩ := (makesRoom_iff k ha).1 hroom
      have ho := hs.isParent_of_owns ⟨slot, Slot.isComposition_of_isSingle hl, hm⟩
      exact not_transGen_self hs.acyclic k (.tail' hk ho)
    · rintro ⟨rfl, hslot⟩
      exact (hout hslot).2 hk

/-! ## Names and listeners -/

lemma tell (s : Store) (old new : String) (h : NodeHandle) (l : Listener) :
    Retains s (s.tell old new h l).2 := by
  cases l with
  | roster owner slot =>
    have hf := Node.SlotsOnly.editRoster slot (·.rename old new h)
    refine trans (modify_aside s owner (fun n => ⟨hf.name n, n.content_editRoster _ _, ?_⟩)
      fun n => hf.validated n) (.invalidate _ owner)
    exact n.held_editRoster_rel (R := Eq) (fun _ => rfl) slot fun _ => rfl
  | watcher number =>
    simp only [Store.tell]
    split <;> exact .refl s

lemma tellAll (s : Store) (old new : String) (h : NodeHandle) (ls : List Listener) :
    Retains s (s.tellAll old new h ls) := by
  induction ls generalizing s with
  | nil => exact .refl s
  | cons l r ih => exact (tell s old new h l).trans (ih _)

/-- A node gets another name before the listeners are told. -/
lemma rename (hs : s.Sound) (h : NodeHandle) (name : String) :
    Retains s ((s.modify h fun n => { n with name }).invalidate h) := by
  have hq := Quiet.rename s h name
  refine of_invalidate hs (hs.of_quiet hq) h (fun k => isValidated_modify s h k fun _ => rfl)
    (fun k hk => .modify_of_ne s _ hk) fun p k _ hpk => ?_
  unfold IsParent at hpk ⊢
  rwa [parent?_eq, hq.home?, ← parent?_eq]

lemma setName (hs : s.Sound) (h : NodeHandle) (name : String) :
    Retains s (s.setName h name).2 := by
  rw [snd_setName]
  split
  · exact (rename hs h name).trans (.tellAll _ _ _ _ _)
  · exact .refl s

lemma addWatcher (s : Store) (h : NodeHandle) : Retains s (s.addWatcher h).2 := by
  let t := { s with
    watchers := s.watchers ++ [Watcher.mk s.nextWatcher h], nextWatcher := s.nextWatcher + 1 }
  have ht : Retains s t := .of_cells rfl
  exact ht.trans (.modify_aside t h (fun _ => ⟨rfl, rfl, fun _ => rfl⟩) fun _ => rfl)

lemma removeWatcher (s : Store) (number : Nat) : Retains s (s.removeWatcher number).2 := by
  unfold Store.removeWatcher
  split
  · exact .refl s
  · let t := { s with watchers := s.watchers.filter (·.number != number) }
    have ht : Retains s t := .of_cells rfl
    exact ht.trans (.modify_aside t _ (fun _ => ⟨rfl, rfl, fun _ => rfl⟩) fun _ => rfl)

end Retains

/-- Elementary changes take the marks away that do not hold any longer. -/
theorem Sound.retains_change {s s' : Store} (hs : s.Sound) (h : Change s s') : Retains s s' := by
  cases h with
  | create name content he => exact .create hs name content
  | invalidate h => exact .invalidate s h
  | revise h f hf hc => exact .modify hs.toForest hc fun _ => rfl
  | sort h slot last hc =>
    exact .modify hs.toForest hc fun n => (Node.SlotsOnly.editRoster slot _).validated n
  | remove o slot c =>
    by_cases hc : c ∈ s.held o slot
    · rw [removeFrom_of_mem hc]
      exact .unlink hs hc
    · rw [removeFrom_of_not_mem hc]
      exact .refl s
  | enter o slot c ha hl _ hout => exact .link hs ha hl hout
  | rename h name => exact .setName hs h name
  | locate h l => exact .modify_aside s h (fun _ => ⟨rfl, rfl, fun _ => rfl⟩) fun _ => rfl
  | watch h => exact .addWatcher s h
  | unwatch number => exact .removeWatcher s number
  | root h =>
    unfold addRoot
    split
    · exact .refl s
    · exact .of_cells rfl
  | unroot h => exact .of_cells rfl

theorem Sound.retains_changes {s s' : Store} (hs : s.Sound) (h : Changes s s') :
    Retains s s' := by
  induction h with
  | refl => exact .refl s
  | tail h hc ih => exact ih.trans ((hs.changes h).retains_change hc)

/-- Dropping nodes drops nothing that a node owns which stays. -/
theorem Sound.retains_collect {s : Store} (hs : s.Sound) : Retains s s.collect.2 := by
  have hview : ∀ {β : Type} (g : Node → β), (∀ n ls, g { n with listeners := ls } = g n) →
      ∀ k ∈ s.survivors, (s.collect.2.get? k).map g = (s.get? k).map g := by
    intro β g hg k hk
    rw [map_get?_collect g hg, if_pos hk]
  have hkeep : ∀ k ∈ s.survivors, Unchanged s s.collect.2 k := by
    intro k hk
    refine ⟨?_, hview _ (fun _ _ => rfl) k hk, fun slot => ?_⟩
    · rw [Store.name, hview _ (fun _ _ => rfl) k hk, Store.name]
    · rw [held_collect, if_pos hk]
  intro n hn
  -- a node that is marked after the drop has not been dropped
  have hl : n ∈ s.survivors := by
    by_contra hno
    rw [isValidated, map_get?_collect _ (fun _ _ => rfl), if_neg hno] at hn
    cases hn
  rw [isValidated, hview _ (fun _ _ => rfl) n hl] at hn
  refine ⟨hn, fun m hm => hkeep m ?_⟩
  induction hm with
  | refl => exact hl
  | tail _ hc ih => exact mem_survivors_of_owns hs.shaped ih hc

end Semdoc.Store
