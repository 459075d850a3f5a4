import Semdoc.Graph.Collect
import Semdoc.Proofs.Store.Kinds

/-!
# Elementary changes

All that is done to a store, apart from dropping nodes and marking valid ones, comes down to a few
elementary changes.  Those that change a node in place need its mark, and those of its owners, to be
cleared before.
-/

namespace Semdoc.Store

open Relation

/-- Neither a node nor what owns it is marked as valid. -/
def Clear (s : Store) (h : NodeHandle) : Prop :=
  ∀ a, ReflTransGen s.IsParent a h → s.isValidated a = false

lemma SameNodes.isParent {s s' : Store} (h : SameNodes s s') : s'.IsParent = s.IsParent := by
  funext p c
  rw [IsParent, h.parent?, IsParent]

/-- What is above a node before it is invalidated is unmarked after that. -/
lemma Sound.clear_invalidate {s : Store} (hs : s.Sound) (h : NodeHandle) :
    (s.invalidate h).Clear h := by
  intro a ha
  rw [(SameNodes.invalidate s h).isParent, ← mem_chainUp_iff hs.acyclic] at ha
  rw [isValidated_invalidate]
  simp [ha]

lemma Clear.of_isParent {s : Store} {p h : NodeHandle} (hc : s.Clear h) (hp : s.IsParent p h) :
    s.Clear p :=
  fun a ha => hc a (ha.tail hp)

/-- A node stays clear as long as it gets no more owners and no marks are made. -/
lemma Clear.mono {s s' : Store} {h : NodeHandle} (hc : s.Clear h)
    (hp : ∀ a, ReflTransGen s'.IsParent a h → ReflTransGen s.IsParent a h)
    (hm : ∀ a, s'.isValidated a = true → s.isValidated a = true) : s'.Clear h := by
  intro a ha
  by_contra hv
  rw [Bool.not_eq_false] at hv
  have hv' := hm a hv
  rw [hc a (hp a ha)] at hv'
  cases hv'

lemma Clear.invalidate {s : Store} {h : NodeHandle} (hc : s.Clear h) (k : NodeHandle) :
    (s.invalidate k).Clear h := by
  apply hc.mono
  · intro a ha
    rwa [(SameNodes.invalidate s k).isParent] at ha
  · intro a ha
    rw [isValidated_invalidate, Bool.and_eq_true] at ha
    exact ha.1

lemma Clear.modify {s : Store} {h : NodeHandle} (hc : s.Clear h) (k : NodeHandle)
    {f : Node → Node} (hh : ∀ n, (f n).home = n.home) (hv : ∀ n, (f n).validated = n.validated) :
    (s.modify k f).Clear h := by
  have hp : (s.modify k f).IsParent = s.IsParent := by
    funext p c
    have e : (s.modify k f).home? c = s.home? c := by
      rw [home?_modify]
      split
      · next e => simp [home?, e, hh]
      · rfl
    rw [IsParent, parent?_eq, e, ← parent?_eq, IsParent]
  apply hc.mono
  · intro a ha
    rwa [hp] at ha
  · intro a ha
    rwa [isValidated_modify s k a hv] at ha

/-- A node that has been dropped is clear. -/
lemma clear_of_not_contains {s : Store} {h : NodeHandle} (hh : s.contains h = false) :
    s.Clear h := by
  intro a ha
  have hn : s.get? h = none := by simpa [contains] using hh
  rcases ReflTransGen.cases_tail ha with rfl | ⟨p, _, hp⟩
  · simp [isValidated, hn]
  · rw [hp.contains] at hh
    cases hh

/-- A link adds owners only above the node that is entered. -/
lemma IsParent.of_link {s : Store} {o c p k : NodeHandle} {slot : Slot}
    (hc : s.contains c = true) (h : (s.link o slot c).IsParent p k) (hk : k ≠ c) :
    s.IsParent p k := by
  unfold IsParent at h ⊢
  rw [parent?_eq, home?_link c k hc, if_neg fun e => hk e.1] at h
  split at h
  · cases h
  · rwa [parent?_eq]

lemma Clear.link {s : Store} {o c h : NodeHandle} {slot : Slot} (hc : s.Clear h)
    (hl : s.contains c = true) (hn : ¬ ReflTransGen s.IsParent c h) :
    (s.link o slot c).Clear h := by
  apply hc.mono
  · intro a ha
    clear hc
    induction ha with
    | refl => exact .refl
    | @tail q k _ hq ih =>
      have hk : k ≠ c := by
        rintro rfl
        exact hn .refl
      have hq' := hq.of_link hl hk
      exact (ih fun h => hn (h.tail hq')).tail hq'
  · intro a ha
    rwa [isValidated_link] at ha

/-- The elementary changes. -/
inductive Change (s : Store) : Store → Prop where
  /-- Adding a node.  An annotation has no endpoints yet. -/
  | create (name : String) (content : Content) (he : content.endpoints = []) :
      Change s (s.create name content).2
  | invalidate (h : NodeHandle) : Change s (s.invalidate h)
  | revise (h : NodeHandle) (f : Content → Content)
      (hf : ∀ n, s.get? h = some n → s.Revisable n.content (f n.content)) (hc : s.Clear h) :
      Change s (s.modify h fun n => { n with content := f n.content })
  | sort (h : NodeHandle) (slot : Slot) (last : NodeHandle → Bool) (hc : s.Clear h) :
      Change s (s.modify h (·.editRoster slot (·.moveLast last)))
  | remove (o : NodeHandle) (slot : Slot) (c : NodeHandle) :
      Change s (s.removeFrom o slot c).2
  /-- Entering a node in a slot.  One that is to be owned is of the kind that the slot asks for, is in
  no slot for owned nodes, and does not own its owner. -/
  | enter (o : NodeHandle) (slot : Slot) (c : NodeHandle) (ha : s.Accepts o slot)
      (hl : s.contains c = true) (hfit : s.Fits slot c)
      (hout : slot.isComposition = true →
        (∀ p sl, sl.isComposition = true → c ∉ s.held p sl) ∧ ¬ ReflTransGen s.IsParent c o) :
      Change s ((s.link o slot c).invalidate o)
  | rename (h : NodeHandle) (name : String) : Change s (s.setName h name).2
  | locate (h : NodeHandle) (l : Location) : Change s (s.setLocation h l)
  | watch (h : NodeHandle) : Change s (s.addWatcher h).2
  | unwatch (number : Nat) : Change s (s.removeWatcher number).2
  | root (h : NodeHandle) : Change s (s.addRoot h)
  | unroot (h : NodeHandle) : Change s (s.removeRoot h).2

/-- Any number of elementary changes. -/
def Changes : Store → Store → Prop := ReflTransGen Change

/-! ## Names and listeners -/

/-- Telling all listeners about a new name. -/
def tellAll (s : Store) (old new : String) (h : NodeHandle) (ls : List Listener) : Store :=
  ls.foldl (fun s l => (s.tell old new h l).2) s

lemma snd_setName (s : Store) (h : NodeHandle) (name : String) :
    (s.setName h name).2 =
      if s.contains h = true ∧ s.name h ≠ name then
        ((s.modify h fun n => { n with name }).invalidate h).tellAll (s.name h) name h
          (s.listeners h)
      else s := by
  unfold setName contains Store.name Store.listeners
  cases hn : s.get? h with
  | none => simp
  | some n =>
    simp only [Option.isSome_some, Option.map_some, Option.getD_some, true_and]
    by_cases e : n.name = name
    · simp [e]
    · simp only [e, ne_eq, not_false_eq_true, if_true, beq_iff_eq, if_false]
      -- the store of the fold does not depend on the renamings gathered beside it
      exact (List.foldl_hom Prod.snd fun _ _ => rfl).symm

namespace Quiet

lemma tell (s : Store) (old new : String) (h : NodeHandle) (l : Listener) :
    Quiet s (s.tell old new h l).2 := by
  cases l with
  | roster owner slot =>
    have hf : ∀ r : Roster, (r.rename old new h).items.Perm r.items := fun _ => .refl _
    exact (Quiet.editRoster s owner slot hf).trans (.invalidate _ owner)
  | watcher number =>
    simp only [Store.tell]
    split <;> exact .refl s

lemma tellAll (s : Store) (old new : String) (h : NodeHandle) (ls : List Listener) :
    Quiet s (s.tellAll old new h ls) := by
  induction ls generalizing s with
  | nil => exact .refl s
  | cons l r ih => exact (Quiet.tell s old new h l).trans (ih _)

lemma rename (s : Store) (h : NodeHandle) (name : String) :
    Quiet s (s.modify h fun n => { n with name }) :=
  .modify_aside s h (fun _ _ => ⟨rfl, rfl, rfl⟩) (fun _ => rfl) fun _ => ⟨rfl, rfl⟩

lemma setName (s : Store) (h : NodeHandle) (name : String) : Quiet s (s.setName h name).2 := by
  rw [snd_setName]
  split
  · exact ((Quiet.rename s h name).trans (.invalidate _ h)).trans (.tellAll _ _ _ _ _)
  · exact .refl s

lemma addWatcher (s : Store) (h : NodeHandle) : Quiet s (s.addWatcher h).2 := by
  let t := { s with
    watchers := s.watchers ++ [Watcher.mk s.nextWatcher h], nextWatcher := s.nextWatcher + 1 }
  have ht : Quiet s t := .of_cells rfl rfl
  exact ht.trans
    (.modify_aside t h (fun _ _ => ⟨rfl, rfl, rfl⟩) (fun _ => rfl) fun _ => ⟨rfl, rfl⟩)

lemma removeWatcher (s : Store) (number : Nat) : Quiet s (s.removeWatcher number).2 := by
  unfold Store.removeWatcher
  split
  · exact .refl s
  · let t := { s with watchers := s.watchers.filter (·.number != number) }
    have ht : Quiet s t := .of_cells rfl rfl
    exact ht.trans
      (.modify_aside t _ (fun _ _ => ⟨rfl, rfl, rfl⟩) (fun _ => rfl) fun _ => ⟨rfl, rfl⟩)

end Quiet

/-- What a change does to owners and slots: nothing, or it adds a node, or it links or unlinks one. -/
lemma Change.cases_quiet {s s' : Store} (h : Change s s') :
    Quiet s s' ∨ (∃ name content, s' = (s.create name content).2) ∨
      (∃ o slot c, c ∈ s.held o slot ∧ s' = (s.unlink o slot c).invalidate o) ∨
      ∃ o slot c, s.Accepts o slot ∧ s.contains c = true ∧
        (slot.isComposition = true →
          (∀ p sl, sl.isComposition = true → c ∉ s.held p sl) ∧ ¬ ReflTransGen s.IsParent c o) ∧
        s' = (s.link o slot c).invalidate o := by
  cases h with
  | create name content he => exact .inr (.inl ⟨name, content, rfl⟩)
  | invalidate h => exact .inl (.invalidate s h)
  | revise h f hf hc =>
    exact .inl (.modify_aside s h (fun n hn => (hf n hn).toSameSlots) (fun _ => rfl)
      fun _ => ⟨rfl, rfl⟩)
  | sort h slot last hc =>
    exact .inl (.editRoster s h slot fun r => (r.moveLast_perm last).2)
  | remove o slot c =>
    by_cases hc : c ∈ s.held o slot
    · rw [removeFrom_of_mem hc]
      exact .inr (.inr (.inl ⟨o, slot, c, hc, rfl⟩))
    · rw [removeFrom_of_not_mem hc]
      exact .inl (.refl s)
  | enter o slot c ha hl _ hout => exact .inr (.inr (.inr ⟨o, slot, c, ha, hl, hout, rfl⟩))
  | rename h name => exact .inl (.setName s h name)
  | locate h l =>
    exact .inl (.modify_aside s h (fun _ _ => ⟨rfl, rfl, rfl⟩) (fun _ => rfl) fun _ => ⟨rfl, rfl⟩)
  | watch h => exact .inl (.addWatcher s h)
  | unwatch number => exact .inl (.removeWatcher s number)
  | root h =>
    unfold addRoot
    split
    · exact .inl (.refl s)
    · exact .inl (.of_cells rfl rfl)
  | unroot h => exact .inl (.of_cells rfl rfl)

/-- Every elementary change keeps a store sound. -/
theorem Sound.change {s s' : Store} (hs : s.Sound) (h : Change s s') : s'.Sound := by
  rcases h.cases_quiet with h | ⟨name, content, rfl⟩ | ⟨o, slot, c, hc, rfl⟩ |
    ⟨o, slot, c, ha, hl, hout, rfl⟩
  · exact hs.of_quiet h
  · exact hs.create name content
  · exact (hs.unlink hc).invalidate o
  · exact (hs.link ha hl hout).invalidate o

theorem Sound.changes {s s' : Store} (hs : s.Sound) (h : Changes s s') : s'.Sound := by
  induction h with
  | refl => exact hs
  | tail _ h ih => exact ih.change h

/-- A fold whose steps come down to elementary changes of the store that it carries does so
itself. -/
lemma Sound.changes_foldl {α β : Type} (store : α → Store) {f : α → β → α} {a : α}
    (ha : (store a).Sound)
    (hf : ∀ a b, (store a).Sound → Changes (store a) (store (f a b))) (bs : List β) :
    Changes (store a) (store (bs.foldl f a)) := by
  induction bs generalizing a with
  | nil => exact .refl
  | cons b rest ih =>
    have h1 := hf a b ha
    exact h1.trans (ih (ha.changes h1))

/-! ## Attaching -/

/-- A node that has left its home is in no slot for owned nodes. -/
lemma Sound.not_mem_held_detach {s : Store} (hs : s.Sound) (c : NodeHandle) {p : NodeHandle}
    {slot : Slot} (hslot : slot.isComposition = true) : c ∉ (s.detach c).2.held p slot := by
  intro hc
  unfold detach at hc
  split at hc
  · next home hh =>
    have hs' := hs.change (.remove home.owner home.slot c)
    by_cases hm : c ∈ s.held home.owner home.slot
    · have hcomp := (hs.held_of_home hh (contains_of_mem_held hm)).1
      -- struck out of its slot it has no home, so no other slot can hold it
      have hhome := hs'.home_of_held hslot hc
      rw [removeFrom_of_mem hm, (SameNodes.invalidate _ _).home?, home?_unlink,
        if_pos ⟨rfl, hcomp⟩] at hhome
      cases hhome
    · rw [removeFrom_of_not_mem hm] at hc
      have e := hs.home_of_held hslot hc
      rw [hh] at e
      cases e
      exact hm hc
  · next hh =>
    have e := hs.home_of_held hslot hc
    rw [hh] at e
    cases e

/-- Leaving a home gives no node another owner, and takes no slot away. -/
lemma detach_le (s : Store) (c : NodeHandle) :
    (∀ p k, (s.detach c).2.IsParent p k → s.IsParent p k) ∧
      (∀ k, (s.detach c).2.contains k = s.contains k) ∧
      ∀ o slot, s.Accepts o slot → (s.detach c).2.Accepts o slot := by
  unfold detach
  split
  · next home hh =>
    by_cases hm : c ∈ s.held home.owner home.slot
    · rw [removeFrom_of_mem hm]
      have hi := SameNodes.invalidate (s.unlink home.owner home.slot c) home.owner
      refine ⟨fun p k hp => ?_, fun k => ?_, fun o slot ⟨n, hn, ha⟩ => ?_⟩
      · rw [hi.isParent] at hp
        unfold IsParent at hp ⊢
        rw [parent?_eq, home?_unlink] at hp
        split at hp
        · cases hp
        · rwa [parent?_eq]
      · rw [hi.contains, contains_unlink]
      · have hu := get?_unlink s home.owner home.slot c o
        have hm := hi.get? o
        rw [hu, hn, Option.map_some, Option.map_some] at hm
        obtain ⟨m, hm, e⟩ := Option.map_eq_some_iff.1 hm
        refine ⟨m, hm, ?_⟩
        -- taking a node out of a slot leaves the slot
        have hacc : (n.unlinked home.owner home.slot c (s.name c) o).accepts slot = true := by
          show (if o = home.owner then n.take home.slot c (s.name c) else n).accepts slot = true
          split
          · exact Node.accepts_take ha _ _ _
          · exact ha
        have he : m.unmarked.accepts slot = true := by
          rw [e]
          exact hacc
        exact he
    · rw [removeFrom_of_not_mem hm]
      exact ⟨fun _ _ => id, fun _ => rfl, fun _ _ => id⟩
  · exact ⟨fun _ _ => id, fun _ => rfl, fun _ _ => id⟩

lemma Changes.detach (s : Store) (c : NodeHandle) : Changes s (s.detach c).2 := by
  unfold Store.detach
  split
  · exact .single (.remove _ _ _)
  · exact .refl

/-- What it means that nothing forbids an attachment. -/
lemma Sound.of_attachFault? {s : Store} (hs : s.Sound) {o c : NodeHandle} {slot : Slot}
    (h : s.attachFault? o slot c = none) :
    s.Accepts o slot ∧ s.contains c = true ∧
      (slot.isComposition = true → ¬ ReflTransGen s.IsParent c o) := by
  unfold attachFault? at h
  split at h
  · cases h
  · next n hn =>
    split_ifs at h with h1 h2 h3
    rw [Bool.not_eq_true'] at h2
    refine ⟨⟨n, hn, by simpa using h2⟩, by simpa using h1, fun hslot hco => h3 ?_⟩
    -- the third check looks for the owner below the node, itself included
    rw [hslot, Bool.true_and, Bool.or_eq_true, isAncestor_iff hs.acyclic, beq_iff_eq]
    exact reflTransGen_iff_eq_or_transGen.1 hco

/-- Attaching a node is to link it after it has left its home, if it is to be owned. -/
lemma Sound.exists_link {s : Store} (hs : s.Sound) {o c : NodeHandle} {slot : Slot}
    (h : s.attachFault? o slot c = none) :
    ∃ t : Store, t = (if slot.isComposition then (s.detach c).2 else s) ∧
      Changes s t ∧ t.Sound ∧ t.Accepts o slot ∧ t.contains c = true ∧
      (slot.isComposition = true →
        (∀ p sl, sl.isComposition = true → c ∉ t.held p sl) ∧ ¬ ReflTransGen t.IsParent c o) := by
  obtain ⟨ha, hc, hn⟩ := hs.of_attachFault? h
  refine ⟨_, rfl, ?_⟩
  cases hslot : slot.isComposition with
  | false => exact ⟨.refl, hs, ha, hc, fun e => by cases e⟩
  | true =>
    obtain ⟨hp, hl, hacc⟩ := s.detach_le c
    have hd := Changes.detach s c
    refine ⟨hd, hs.changes hd, hacc o slot ha, (hl c).trans hc, fun _ => ?_⟩
    refine ⟨fun p sl hsl => hs.not_mem_held_detach c hsl, fun hco => hn hslot ?_⟩
    exact ReflTransGen.mono (fun p k => hp p k) _ _ hco

/-- Attaching a node is a matter of elementary changes. -/
theorem Sound.changes_place {s : Store} (hs : s.Sound) {o c : NodeHandle} {slot : Slot}
    (h : s.attachFault? o slot c = none) (hfit : s.Fits slot c) : Changes s (s.place o slot c) := by
  obtain ⟨t, ht, hst, _, ha, hc, hout⟩ := hs.exists_link h
  have hst' : SameContents s t := by
    rw [ht]
    split
    · exact .detach s c
    · exact .refl s
  rw [place_eq, ← ht]
  exact hst.tail (.enter o slot c ha hc (hst'.fits hfit) hout)

/-- Attaching leaves the new owner clear. -/
lemma Sound.clear_place {s : Store} (hs : s.Sound) {o c : NodeHandle} {slot : Slot}
    (h : s.attachFault? o slot c = none) : (s.place o slot c).Clear o := by
  obtain ⟨t, ht, _, hts, ha, hc, hout⟩ := hs.exists_link h
  rw [place_eq, ← ht]
  exact (hts.link ha hc hout).clear_invalidate o

/-- Leaving a home leaves it clear. -/
lemma Sound.clear_detach {s : Store} (hs : s.Sound) {p c : NodeHandle} (hp : s.IsParent p c) :
    (s.detach c).2.Clear p := by
  have hp' := hp
  unfold IsParent at hp'
  rw [parent?_eq] at hp'
  obtain ⟨home, hh, rfl⟩ := Option.map_eq_some_iff.1 hp'
  simp only [Store.detach, hh]
  by_cases hm : c ∈ s.held home.owner home.slot
  · rw [removeFrom_of_mem hm]
    exact (hs.unlink hm).clear_invalidate _
  · rw [removeFrom_of_not_mem hm]
    apply clear_of_not_contains
    by_contra hl
    rw [Bool.not_eq_false] at hl
    exact hm (hs.held_of_home hh hl).2

/-- Attaching leaves the owner clear from which the node is taken. -/
lemma Sound.clear_place_of_isParent {s : Store} (hs : s.Sound) {o p c : NodeHandle} {slot : Slot}
    (h : s.attachFault? o slot c = none) (hslot : slot.isComposition = true)
    (hp : s.IsParent p c) : (s.place o slot c).Clear p := by
  obtain ⟨t, ht, _, _, _, hc, _⟩ := hs.exists_link h
  rw [place_eq, ← ht]
  rw [hslot, if_pos rfl] at ht
  have hclear : t.Clear p := by
    rw [ht]
    exact hs.clear_detach hp
  apply Clear.invalidate
  apply hclear.link hc
  intro hcp
  rw [ht] at hcp
  have hcp' : ReflTransGen s.IsParent c p :=
    ReflTransGen.mono (fun q k => (s.detach_le c).1 q k) _ _ hcp
  exact not_transGen_self hs.acyclic c (.tail' hcp' hp)

end Semdoc.Store
