import Semdoc.Proofs.Store.Change

/-!
# What changes may touch

A scope says which slots nodes may enter and leave, what new nodes may be, and what a content may become.  What
is done within a scope leaves all other slots as they are, and takes no node away.
-/

namespace Semdoc.Store

open Relation

/-- A content with the same slots is put into the place of another one. -/
lemma held_revised {s : Store} {h : NodeHandle} {f : Content → Content}
    (hf : ∀ c, s.content? h = some c → c.SameSlots (f c)) (k : NodeHandle) (slot : Slot) :
    (s.modify h fun n => { n with content := f n.content }).held k slot = s.held k slot := by
  rw [held_modify]
  split
  · next e =>
    subst e
    rw [held]
    cases hn : s.get? k with
    | none => rfl
    | some n =>
      obtain ⟨-, hsingle, -⟩ := hf n.content (by rw [content?, hn, Option.map_some])
      simp only [Option.map_some, Option.getD_some, Node.held, Node.listed, Node.roster?, hsingle]
  · rfl

/-- What may be touched. -/
structure Scope where
  /-- The slots that nodes enter and leave. -/
  slots : Slot → Prop
  /-- The contents of new nodes. -/
  adds : Content → Prop
  /-- What a content may become in one step. -/
  revises : Content → Content → Prop

/-- What no step changes in a content, several steps do not change either. -/
lemma Scope.view_eq {S : Scope} {β : Type} {view : Content → β}
    (hview : ∀ {c d}, S.revises c d → view d = view c) {c d : Content}
    (h : ReflTransGen S.revises c d) : view d = view c := by
  induction h with
  | refl => rfl
  | tail _ h ih => exact (hview h).trans ih

/-- What lies between two stores is within a scope. -/
structure Within (S : Scope) (s t : Store) : Prop where
  held : ∀ {sl}, ¬ S.slots sl → ∀ k, t.held k sl = s.held k sl
  revised : ∀ {k c}, s.content? k = some c →
    ∃ d, t.content? k = some d ∧ ReflTransGen S.revises c d
  added : ∀ {k d}, s.content? k = none → t.content? k = some d →
    ∃ c, S.adds c ∧ ReflTransGen S.revises c d

namespace Within

variable {S : Scope} {s t u : Store}

/-- Contents stay. -/
lemma of_sameContents (hc : SameContents s t)
    (hh : ∀ {sl}, ¬ S.slots sl → ∀ k, t.held k sl = s.held k sl) : Within S s t := by
  refine ⟨hh, fun {k c} hk => ⟨c, by rw [hc.content?, hk], .refl⟩, fun {k d} hk hd => ?_⟩
  rw [hc.content?, hk] at hd
  cases hd

lemma refl (S : Scope) (s : Store) : Within S s s := of_sameContents (.refl s) fun _ _ => rfl

lemma trans (h : Within S s t) (h' : Within S t u) : Within S s u := by
  refine ⟨fun hsl k => (h'.held hsl k).trans (h.held hsl k), fun hk => ?_, fun {k d} hk hd => ?_⟩
  · obtain ⟨d, hd, hcd⟩ := h.revised hk
    obtain ⟨e, he, hde⟩ := h'.revised hd
    exact ⟨e, he, hcd.trans hde⟩
  · cases ht : t.content? k with
    | none => exact h'.added ht hd
    | some c =>
      obtain ⟨b, hb, hbc⟩ := h.added hk ht
      obtain ⟨e, he, hce⟩ := h'.revised ht
      rw [hd] at he
      cases he
      exact ⟨b, hb, hbc.trans hce⟩

lemma of_sameNodes (h : SameNodes s t) : Within S s t :=
  of_sameContents (.of_sameNodes h) fun _ k => h.held k _

/-- What is within a scope is within every larger one. -/
lemma mono {S' : Scope} (h : Within S s t) (hslots : ∀ sl, S.slots sl → S'.slots sl)
    (hadds : ∀ c, S.adds c → S'.adds c) (hrevises : ∀ c d, S.revises c d → S'.revises c d) :
    Within S' s t := by
  refine ⟨fun hsl k => h.held (fun hin => hsl (hslots _ hin)) k, fun hk => ?_, fun hk hd => ?_⟩
  · obtain ⟨d, hd, hcd⟩ := h.revised hk
    exact ⟨d, hd, ReflTransGen.mono hrevises _ _ hcd⟩
  · obtain ⟨c, hc, hcd⟩ := h.added hk hd
    exact ⟨c, hadds c hc, ReflTransGen.mono hrevises _ _ hcd⟩

/-- A fold whose steps keep the store that it carries within a scope. -/
lemma foldl {α β : Type} (store : α → Store) {f : α → β → α}
    (hf : ∀ a b, Within S (store a) (store (f a b))) (a : α) (bs : List β) :
    Within S (store a) (store (bs.foldl f a)) := by
  induction bs generalizing a with
  | nil => exact .refl S _
  | cons b rest ih => exact (hf a b).trans (ih (f a b))

/-! ## Elementary changes -/

lemma create (hs : s.Intact) (name : String) {content : Content} (hc : S.adds content) :
    Within S s (s.create name content).2 := by
  have hget := hs.get?_create name content
  refine ⟨fun _ k => hs.held_create name content k _, fun {k c} hk => ⟨c, ?_, .refl⟩,
    fun {k d} hk hd => ?_⟩
  · have hlive : s.contains k = true := by rw [contains_eq, hk]; rfl
    rw [content?, hget, if_neg (ne_nextHandle hs hlive), ← content?, hk]
  · rw [content?, hget] at hd
    split at hd
    · cases hd
      exact ⟨content, hc, .refl⟩
    · rw [← content?, hk] at hd
      cases hd

/-- The content of a node becomes another one with the same slots. -/
lemma modify {h : NodeHandle} {f : Content → Content}
    (hf : ∀ c, s.content? h = some c → c.SameSlots (f c) ∧ S.revises c (f c)) :
    Within S s (s.modify h fun n => { n with content := f n.content }) := by
  refine ⟨fun _ k => held_revised (fun c hc => (hf c hc).1) k _, fun {k c} hk => ?_,
    fun {k d} hk hd => ?_⟩
  · rw [content?_modify]
    split
    · next e =>
      subst e
      exact ⟨f c, by rw [hk]; rfl, .single (hf c hk).2⟩
    · exact ⟨c, hk, .refl⟩
  · rw [content?_modify] at hd
    split at hd
    · next e =>
      subst e
      rw [hk] at hd
      cases hd
    · rw [hk] at hd
      cases hd

/-- What shows in no slot and no content does not matter. -/
lemma modify_aside (s : Store) (h : NodeHandle) {f : Node → Node}
    (hf : ∀ n, (f n).content = n.content ∧ ∀ slot, (f n).held slot = n.held slot) :
    Within S s (s.modify h f) := by
  refine of_sameContents (.modify s h fun n => (hf n).1) fun {sl} _ k => ?_
  rw [Store.held, map_get?_modify _ s h k fun n => (hf n).2 sl, Store.held]

lemma invalidate (s : Store) (h : NodeHandle) : Within S s (s.invalidate h) :=
  of_sameNodes (.invalidate s h)

/-- The nodes in a slot are put into another order. -/
lemma editRoster (s : Store) (h : NodeHandle) {slot : Slot} (hslot : S.slots slot)
    (f : Roster → Roster) : Within S s (s.modify h (·.editRoster slot f)) := by
  refine of_sameContents (.editRoster s h slot f) fun {sl} hsl k => ?_
  have hne : sl ≠ slot := fun e => hsl (e ▸ hslot)
  rw [Store.held, map_get?_modify _ s h k fun n => n.held_editRoster_of_ne f hne, Store.held]

lemma unlink (hs : s.Shaped) {o c : NodeHandle} {slot : Slot} (hslot : S.slots slot)
    (hc : c ∈ s.held o slot) : Within S s (s.unlink o slot c) := by
  refine of_sameContents (.unlink s o slot c) fun {sl} hsl k => ?_
  rw [held_unlink k hs hc, if_neg]
  rintro ⟨-, rfl⟩
  exact hsl hslot

lemma link (hs : s.Shaped) {o c : NodeHandle} {slot : Slot} (hslot : S.slots slot)
    (ha : s.Accepts o slot) : Within S s (s.link o slot c) := by
  refine of_sameContents (.link s o slot c) fun {sl} hsl k => ?_
  rw [held_link hs ha, if_neg]
  rintro ⟨-, rfl⟩
  exact hsl hslot

lemma removeFrom (hs : s.Shaped) {o : NodeHandle} {slot : Slot} (hslot : S.slots slot)
    (c : NodeHandle) : Within S s (s.removeFrom o slot c).2 := by
  by_cases hc : c ∈ s.held o slot
  · rw [removeFrom_of_mem hc]
    exact (unlink hs hslot hc).trans (.invalidate _ o)
  · rw [removeFrom_of_not_mem hc]
    exact .refl S s

/-- A node leaves the slot where it is, if its owner is still there. -/
lemma detach (hs : s.Shaped) {c : NodeHandle}
    (hc : ∀ home, s.home? c = some home → s.contains home.owner = true → S.slots home.slot) :
    Within S s (s.detach c).2 := by
  unfold Store.detach
  split
  · next home hh =>
    by_cases hm : c ∈ s.held home.owner home.slot
    · exact removeFrom hs (hc home hh (contains_of_mem_held hm)) c
    · rw [removeFrom_of_not_mem hm]
      exact .refl S s
  · exact .refl S s

/-- A node is put into a slot, and leaves the one where it was if it is to be owned. -/
lemma place (hs : s.Sound) {o c : NodeHandle} {slot : Slot} (hslot : S.slots slot)
    (hf : s.attachFault? o slot c = none)
    (hc : slot.isComposition = true →
      ∀ home, s.home? c = some home → s.contains home.owner = true → S.slots home.slot) :
    Within S s (s.place o slot c) := by
  obtain ⟨t, ht, -, hts, ha, -, -⟩ := hs.exists_link hf
  rw [place_eq, ← ht]
  have hst : Within S s t := by
    rw [ht]
    split
    · next hcomp => exact detach hs.shaped (hc hcomp)
    · exact .refl S s
  exact hst.trans ((link hts.shaped hslot ha).trans (.invalidate _ o))

/-! ## Names, listeners and roots -/

lemma tell (s : Store) (old new : String) (h : NodeHandle) (l : Listener) :
    Within S s (s.tell old new h l).2 := by
  cases l with
  | roster owner slot =>
    refine .trans (modify_aside s owner fun n => ⟨n.content_editRoster _ _, ?_⟩) (.invalidate _ owner)
    exact n.held_editRoster_rel (R := Eq) (fun _ => rfl) slot fun _ => rfl
  | watcher number =>
    simp only [Store.tell]
    split <;> exact .refl S s

lemma tellAll (s : Store) (old new : String) (h : NodeHandle) (ls : List Listener) :
    Within S s (s.tellAll old new h ls) := by
  induction ls generalizing s with
  | nil => exact .refl S s
  | cons l r ih => exact (tell s old new h l).trans (ih _)

lemma setName (s : Store) (h : NodeHandle) (name : String) : Within S s (s.setName h name).2 := by
  rw [snd_setName]
  split
  · have hn : Within S s (s.modify h fun n => { n with name }) :=
      modify_aside s h fun _ => ⟨rfl, fun _ => rfl⟩
    exact (hn.trans (.invalidate _ h)).trans (.tellAll _ _ _ _ _)
  · exact .refl S s

lemma addWatcher (s : Store) (h : NodeHandle) : Within S s (s.addWatcher h).2 := by
  let t := { s with
    watchers := s.watchers ++ [Watcher.mk s.nextWatcher h], nextWatcher := s.nextWatcher + 1 }
  have ht : Within S s t := of_sameNodes (.of_cells rfl rfl)
  exact ht.trans (modify_aside t h fun _ => ⟨rfl, fun _ => rfl⟩)

lemma removeWatcher (s : Store) (number : Nat) : Within S s (s.removeWatcher number).2 := by
  unfold Store.removeWatcher
  split
  · exact .refl S s
  · let t := { s with watchers := s.watchers.filter (·.number != number) }
    have ht : Within S s t := of_sameNodes (.of_cells rfl rfl)
    exact ht.trans (modify_aside t _ fun _ => ⟨rfl, fun _ => rfl⟩)

lemma addRoot (s : Store) (h : NodeHandle) : Within S s (s.addRoot h) := by
  unfold Store.addRoot
  split
  · exact .refl S s
  · exact of_sameNodes (.of_cells rfl rfl)

lemma removeRoot (s : Store) (h : NodeHandle) : Within S s (s.removeRoot h).2 :=
  of_sameNodes (.of_cells rfl rfl)

end Within

end Semdoc.Store
