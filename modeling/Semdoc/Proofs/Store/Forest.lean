import Mathlib.Logic.Relation
import Mathlib.Order.WellFounded
import Semdoc.Proofs.Store.Links
import Semdoc.Proofs.Store.Views

/-!
# The ownership forest

The owners of a node are a relation.  As long as nobody owns itself, however indirectly, the walks upwards find all
owners before their rounds are used up, since a node that has an owner is live and the places bound the number of
live nodes.

What holds of every store that is worked on properly: owners and owned nodes agree, nothing is owned
twice, and nothing owns itself, directly or not.  An owner may have been dropped before the nodes it
owned; its handle is never given out again, so that they do not get a wrong owner later.
-/

/-! ## Ancestry -/

namespace Semdoc.Store

open Relation

/-- A node owns another one according to the latter. -/
def IsParent (s : Store) (p c : NodeHandle) : Prop := s.parent? c = some p

/-- A node owns another one according to the former. -/
def Owns (s : Store) (p c : NodeHandle) : Prop :=
  ∃ slot : Slot, slot.isComposition = true ∧ c ∈ s.held p slot

lemma IsParent.contains {s : Store} {p c : NodeHandle} (h : s.IsParent p c) :
    s.contains c = true := by
  unfold IsParent at h
  rw [parent?_eq] at h
  obtain ⟨home, hh, _⟩ := Option.map_eq_some_iff.1 h
  exact contains_of_home? hh

lemma isParent_of_home? {s : Store} {c : NodeHandle} {home : Home} (h : s.home? c = some home) :
    s.IsParent home.owner c := by
  rw [IsParent, parent?_eq, h, Option.map_some]

lemma not_transGen_self {s : Store} (hs : WellFounded s.IsParent) (h : NodeHandle) :
    ¬ TransGen s.IsParent h h :=
  fun hh => hs.transGen.irrefl.irrefl h hh

/-! ## Walks upwards -/

/-- What is met on the way up is the node or owns it. -/
lemma reflTransGen_of_mem_chainUp {s : Store} {a : NodeHandle} :
    ∀ {fuel : Nat} {h : NodeHandle}, a ∈ s.chainUp fuel (some h) → ReflTransGen s.IsParent a h := by
  intro fuel
  induction fuel with
  | zero => simp [chainUp]
  | succ fuel ih =>
    intro h ha
    rw [chainUp, List.mem_cons] at ha
    rcases ha with rfl | ha
    · exact .refl
    · cases hp : s.parent? h with
      | none =>
        rw [hp] at ha
        cases fuel <;> simp [chainUp] at ha
      | some p =>
        rw [hp] at ha
        exact (ih ha).tail hp

/-- Different nodes that one has passed on the way up to a node. -/
structure Passed (s : Store) (seen : List NodeHandle) (h : NodeHandle) : Prop where
  nodup : seen.Nodup
  below : ∀ x ∈ seen, s.contains x = true ∧ TransGen s.IsParent h x

namespace Passed

variable {s : Store} {seen : List NodeHandle} {h p : NodeHandle}

lemma nil (s : Store) (h : NodeHandle) : s.Passed [] h := ⟨List.nodup_nil, List.forall_mem_nil _⟩

lemma length_le (hp : s.Passed seen h) : seen.length ≤ s.cells.size :=
  length_le_size_cells hp.nodup fun x hx => (hp.below x hx).1

/-- One goes on to the owner, and never comes back. -/
lemma up (hseen : s.Passed seen h) (hs : WellFounded s.IsParent) (hp : s.IsParent p h) :
    s.Passed (h :: seen) p := by
  refine ⟨List.nodup_cons.2 ⟨fun hm => not_transGen_self hs h (hseen.below h hm).2, hseen.nodup⟩,
    List.forall_mem_cons.2 ⟨⟨hp.contains, .single hp⟩, fun x hx => ?_⟩⟩
  exact ⟨(hseen.below x hx).1, .head hp (hseen.below x hx).2⟩

end Passed

/-- With as many rounds as there are places left, all owners are met. -/
lemma mem_chainUp_of_passed {s : Store} (hs : WellFounded s.IsParent) {a : NodeHandle} {fuel : Nat}
    {h : NodeHandle} {seen : List NodeHandle} (hseen : s.Passed seen h)
    (hfuel : s.cells.size < seen.length + fuel) (ha : ReflTransGen s.IsParent a h) :
    a ∈ s.chainUp fuel (some h) := by
  induction fuel generalizing h seen with
  | zero => exact absurd hseen.length_le (Nat.not_le_of_lt hfuel)
  | succ fuel ih =>
    rw [chainUp, List.mem_cons]
    rcases ReflTransGen.cases_tail ha with rfl | ⟨p, hap, hp⟩
    · exact .inl rfl
    · right
      rw [show s.parent? h = some p from hp]
      refine ih (hseen.up hs hp) ?_ hap
      rw [List.length_cons]
      omega

lemma mem_chainUp_iff {s : Store} (hs : WellFounded s.IsParent) {a h : NodeHandle} :
    a ∈ s.chainUp s.bound (some h) ↔ ReflTransGen s.IsParent a h := by
  constructor
  · exact reflTransGen_of_mem_chainUp
  · intro ha
    exact mem_chainUp_of_passed hs (.nil s h) (by simp [bound]) ha

/-- The ancestors of a node are what owns it, through at least one step. -/
lemma isAncestor_iff {s : Store} (hs : WellFounded s.IsParent) {a h : NodeHandle} :
    s.isAncestor a h = true ↔ TransGen s.IsParent a h := by
  rw [isAncestor, List.contains_iff_mem, ancestors, TransGen.tail'_iff]
  constructor
  · intro ha
    cases hp : s.parent? h with
    | none =>
      rw [hp] at ha
      simp [bound, chainUp] at ha
    | some p =>
      rw [hp] at ha
      exact ⟨p, (mem_chainUp_iff hs).1 ha, hp⟩
  · rintro ⟨p, hap, hp⟩
    rw [show s.parent? h = some p from hp]
    exact (mem_chainUp_iff hs).2 hap

/-! ## Changes of the ownership -/

/-- Nothing comes to own itself when owners are only taken away. -/
lemma wellFounded_isParent_of_le {s s' : Store} (hs : WellFounded s.IsParent)
    (h : ∀ p c, s'.IsParent p c → s.IsParent p c) : WellFounded s'.IsParent :=
  Subrelation.wf (fun {p c} => h p c) hs

/-- Nothing comes to own itself when a node gets an owner that it does not own. -/
lemma wellFounded_isParent_of_link {s s' : Store} (hs : WellFounded s.IsParent)
    {o c : NodeHandle} (hc : ∀ p, s'.IsParent p c → p = o)
    (h : ∀ p k, k ≠ c → s'.IsParent p k → s.IsParent p k)
    (ho : ¬ ReflTransGen s.IsParent c o) : WellFounded s'.IsParent := by
  have away : ∀ k, ¬ ReflTransGen s.IsParent c k → Acc s'.IsParent k := by
    intro k
    induction k using hs.induction with
    | _ k ih =>
      intro hk
      have hkc : k ≠ c := by
        rintro rfl
        exact hk .refl
      refine ⟨k, fun p hp => ?_⟩
      have hp' := h p k hkc hp
      exact ih p hp' fun hcp => hk (hcp.tail hp')
  refine ⟨fun k => ?_⟩
  induction k using hs.induction with
  | _ k ih =>
    refine ⟨k, fun p hp => ?_⟩
    by_cases hkc : k = c
    · subst hkc
      obtain rfl := hc p hp
      exact away p ho
    · exact ih p (h p k hkc hp)

/-- From every node one comes to an owner that has none itself. -/
lemma exists_root_above {s : Store} (hs : WellFounded s.IsParent) (h : NodeHandle) :
    ∃ r, ReflTransGen s.IsParent r h ∧ s.parent? r = none := by
  induction h using hs.induction with
  | _ h ih =>
    cases hp : s.parent? h with
    | none => exact ⟨h, .refl, hp⟩
    | some p =>
      obtain ⟨r, hr, hn⟩ := ih p hp
      exact ⟨r, hr.tail hp, hn⟩

end Semdoc.Store

/-! ## Forests -/

namespace Semdoc

/-- Two contents ask for the same slots. -/
structure Content.SameSlots (c d : Content) : Prop where
  isEntity : d.isEntity = c.isEntity
  singleSlot? : d.singleSlot? = c.singleSlot?
  listSlots : d.listSlots = c.listSlots

namespace Store

open Relation

/-- Owners and owned nodes agree. -/
structure Forest (s : Store) : Prop where
  home_of_held : ∀ {p c : NodeHandle} {slot : Slot}, slot.isComposition = true →
    c ∈ s.held p slot → s.home? c = some ⟨p, slot⟩
  held_of_home : ∀ {p c : NodeHandle} {slot : Slot}, s.home? c = some ⟨p, slot⟩ →
    s.contains p = true → slot.isComposition = true ∧ c ∈ s.held p slot
  nodup : ∀ (p : NodeHandle) {slot : Slot}, slot.isComposition = true → (s.held p slot).Nodup
  acyclic : WellFounded s.IsParent

/-- A store that is worked on properly. -/
structure Sound (s : Store) : Prop extends Forest s where
  intact : s.Intact
  shaped : s.Shaped
  issued : ∀ {c : NodeHandle} {home : Home}, s.home? c = some home → s.Issued home.owner

/-- Two stores have the same nodes with the same owners, in the same slots but for the order. -/
structure Quiet (s s' : Store) : Prop extends SamePlaces s s' where
  shaped : s.Shaped → s'.Shaped
  contains : ∀ k, s'.contains k = s.contains k
  home? : ∀ k, s'.home? k = s.home? k
  held : ∀ k slot, (s'.held k slot).Perm (s.held k slot)

namespace Quiet

variable {s s' s'' : Store}

lemma refl (s : Store) : Quiet s s :=
  ⟨.refl s, id, fun _ => rfl, fun _ => rfl, fun _ _ => .refl _⟩

lemma trans (h : Quiet s s') (h' : Quiet s' s'') : Quiet s s'' :=
  ⟨h.toSamePlaces.trans h'.toSamePlaces, h'.shaped ∘ h.shaped,
    fun k => (h'.contains k).trans (h.contains k), fun k => (h'.home? k).trans (h.home? k),
    fun k slot => (h'.held k slot).trans (h.held k slot)⟩

/-- Marks do not matter. -/
lemma of_sameNodes (h : SameNodes s s') : Quiet s s' := by
  refine ⟨h.toSamePlaces, fun hs k n hn => ?_, h.contains, h.home?, fun k slot => ?_⟩
  · obtain ⟨m, hm, e⟩ := h.exists_get? hn
    have hm' := hs k m hm
    have e1 : m.unmarked.Shaped := ⟨hm'.slots_eq, hm'.single_slot⟩
    rw [e] at e1
    exact ⟨e1.slots_eq, e1.single_slot⟩
  · rw [h.held]

/-- What is kept beside the places does not matter. -/
lemma of_cells (hc : s'.cells = s.cells) (hv : s'.vacant = s.vacant) : Quiet s s' :=
  of_sameNodes (.of_cells hc hv)

/-- Changing a node in place without moving owned nodes. -/
lemma modify (s : Store) (h : NodeHandle) {f : Node → Node}
    (hf : ∀ n, s.get? h = some n → (n.Shaped → (f n).Shaped) ∧ (f n).home = n.home ∧
      ∀ slot, ((f n).held slot).Perm (n.held slot)) : Quiet s (s.modify h f) := by
  refine ⟨.modify s h f, fun hs => ?_, fun k => contains_modify s h k f, fun k => ?_,
    fun k slot => ?_⟩
  · exact forall_get?_modify h hs fun n hn => (hf n hn).1
  · rw [home?_modify]
    split
    · next e =>
      subst e
      cases hn : s.get? k with
      | none => simp [Store.home?, hn]
      | some n => simp [Store.home?, hn, (hf n hn).2.1]
    · rfl
  · rw [held_modify]
    split
    · next e =>
      subst e
      cases hn : s.get? k with
      | none => simp [Store.held, hn]
      | some n => simpa [Store.held, hn] using (hf n hn).2.2 slot
    · exact .refl _

/-- Changing what shows neither in the slots nor in the home of a node. -/
lemma modify_aside (s : Store) (h : NodeHandle) {f : Node → Node}
    (hc : ∀ n, s.get? h = some n → n.content.SameSlots (f n).content)
    (hh : ∀ n, (f n).home = n.home)
    (hd : ∀ n, (f n).single = n.single ∧ (f n).rosters = n.rosters) :
    Quiet s (s.modify h f) := by
  apply Quiet.modify
  intro n hn
  obtain ⟨he, ht, hl⟩ := hc n hn
  obtain ⟨h1, h2⟩ := hd n
  refine ⟨fun hn' => ⟨?_, ?_⟩, hh n, fun slot => ?_⟩
  · rw [he, hl, h2, Node.slots, h2]
    exact hn'.slots_eq
  · rw [h1, ht]
    exact hn'.single_slot
  · have e : (f n).held slot = n.held slot := by
      simp only [Node.held, Node.listed, Node.roster?, h1, h2, ht]
    rw [e]

/-- Editing a slot without adding or removing nodes. -/
lemma editRoster (s : Store) (h : NodeHandle) (slot : Slot) {f : Roster → Roster}
    (hf : ∀ r, (f r).items.Perm r.items) : Quiet s (s.modify h (·.editRoster slot f)) := by
  apply Quiet.modify
  intro n _
  exact ⟨fun hn => hn.editRoster slot f, (Node.SlotsOnly.editRoster slot f).home n,
    n.held_editRoster_rel .refl slot hf⟩

lemma invalidate (s : Store) (h : NodeHandle) : Quiet s (s.invalidate h) :=
  of_sameNodes (.invalidate s h)

end Quiet

namespace Forest

variable {s : Store} (hs : s.Forest)
include hs

/-- What a node owns is owned by it. -/
lemma isParent_of_owns {p c : NodeHandle} (h : s.Owns p c) : s.IsParent p c := by
  obtain ⟨slot, hp, hc⟩ := h
  exact isParent_of_home? (hs.home_of_held hp hc)

lemma contains_of_owns {p c : NodeHandle} (h : s.Owns p c) : s.contains c = true :=
  (hs.isParent_of_owns h).contains

/-- A node is in one slot for owned nodes at most. -/
lemma eq_of_held {p q c : NodeHandle} {slot sl : Slot} (hp : slot.isComposition = true)
    (hq : sl.isComposition = true) (hc : c ∈ s.held p slot) (hd : c ∈ s.held q sl) :
    p = q ∧ slot = sl := by
  have e := (hs.home_of_held hp hc).symm.trans (hs.home_of_held hq hd)
  simpa using e

end Forest

namespace Sound

/-- The empty store. -/
lemma empty : Sound {} := by
  have hh : ∀ k, home? {} k = none := by
    intro k
    rw [home?, get?_empty, Option.bind_none]
  have hd : ∀ k slot, held {} k slot = [] := by
    intro k slot
    simp [held, get?_empty]
  constructor
  · constructor
    · intro p c slot _ hc
      simp [hd] at hc
    · intro p c slot hc
      simp [hh] at hc
    · intro p slot _
      simp [hd]
    · refine ⟨fun c => ⟨c, fun p hp => ?_⟩⟩
      unfold IsParent at hp
      rw [parent?_eq, hh] at hp
      cases hp
  · exact ⟨by simp, by simp⟩
  · intro k n hn
    simp [get?_empty] at hn
  · intro c home hc
    simp [hh] at hc

variable {s s' : Store}

lemma of_quiet (hs : s.Sound) (h : Quiet s s') : s'.Sound := by
  constructor
  · constructor
    · intro p c slot hslot hm
      rw [h.home?]
      exact hs.home_of_held hslot ((h.held p slot).mem_iff.1 hm)
    · intro p c slot hm hl
      rw [h.home?] at hm
      rw [h.contains] at hl
      obtain ⟨hslot, hm⟩ := hs.held_of_home hm hl
      exact ⟨hslot, (h.held p slot).mem_iff.2 hm⟩
    · intro p slot hslot
      exact (h.held p slot).nodup_iff.2 (hs.nodup p hslot)
    · apply wellFounded_isParent_of_le hs.acyclic
      intro p c hpc
      unfold IsParent at hpc ⊢
      rwa [parent?_eq, h.home?, ← parent?_eq] at hpc
  · exact h.toSamePlaces.intact hs.intact
  · exact h.shaped hs.shaped
  · intro c home hm
    rw [h.home?] at hm
    exact (h.toSamePlaces.issued _).2 (hs.issued hm)

lemma invalidate (hs : s.Sound) (h : NodeHandle) : (s.invalidate h).Sound :=
  hs.of_quiet (.invalidate s h)

/-- Striking a node out of a slot. -/
lemma unlink (hs : s.Sound) {o c : NodeHandle} {slot : Slot} (hc : c ∈ s.held o slot) :
    (s.unlink o slot c).Sound := by
  have hheld := fun k sl => held_unlink k hs.shaped hc sl
  have hhome := @home?_unlink s o slot c
  -- what is still in a slot for owned nodes was there before, and is not what was struck out
  have hout : ∀ {p d sl}, sl.isComposition = true → d ∈ (s.unlink o slot c).held p sl →
      d ∈ s.held p sl ∧ ¬ (d = c ∧ slot.isComposition = true) := by
    intro p d sl hsl hd
    rw [hheld] at hd
    split at hd
    · next e =>
      obtain ⟨rfl, rfl⟩ := e
      obtain ⟨hne, hd⟩ := (hs.nodup p hsl).mem_erase_iff.1 hd
      exact ⟨hd, fun e => hne e.1⟩
    · next e =>
      refine ⟨hd, ?_⟩
      rintro ⟨rfl, hslot⟩
      exact e (hs.eq_of_held hsl hslot hd hc)
  constructor
  · constructor
    · intro p d sl hsl hd
      obtain ⟨hd, hne⟩ := hout hsl hd
      rw [hhome, if_neg hne]
      exact hs.home_of_held hsl hd
    · intro p d sl hd hp
      rw [contains_unlink] at hp
      rw [hhome] at hd
      split at hd
      · cases hd
      · next hne =>
        obtain ⟨hsl, hd⟩ := hs.held_of_home hd hp
        refine ⟨hsl, ?_⟩
        rw [hheld]
        split
        · next e =>
          obtain ⟨rfl, rfl⟩ := e
          exact (List.mem_erase_of_ne fun e => hne ⟨e, hsl⟩).2 hd
        · exact hd
    · intro p sl hsl
      rw [hheld]
      split
      · next e => exact (e.2 ▸ hs.nodup o hsl).erase c
      · exact hs.nodup p hsl
    · apply wellFounded_isParent_of_le hs.acyclic
      intro p d hpd
      unfold IsParent at hpd ⊢
      rw [parent?_eq, hhome] at hpd
      split at hpd
      · cases hpd
      · rwa [parent?_eq]
  · exact (samePlaces_unlink s o slot c).intact hs.intact
  · exact hs.shaped.unlink o slot c
  · intro d home hd
    rw [hhome] at hd
    split at hd
    · cases hd
    · exact ((samePlaces_unlink s o slot c).issued _).2 (hs.issued hd)

section Link

variable (hs : s.Sound) {o c : NodeHandle} {slot : Slot} (ha : s.Accepts o slot)
  (hc : s.contains c = true)
include hs hc

lemma acyclic_link (hnot : slot.isComposition = true → ¬ ReflTransGen s.IsParent c o) :
    WellFounded (s.link o slot c).IsParent := by
  -- only the node that is linked gets another parent
  have hpar : ∀ p d, ¬ (d = c ∧ slot.isComposition = true) →
      (s.link o slot c).IsParent p d → s.IsParent p d := by
    intro p d hne hpd
    unfold IsParent at hpd ⊢
    rw [parent?_eq, home?_link c _ hc, if_neg hne] at hpd
    split at hpd
    · cases hpd
    · rwa [parent?_eq]
  cases hslot : slot.isComposition with
  | false =>
    apply wellFounded_isParent_of_le hs.acyclic
    exact fun p d => hpar p d (by simp [hslot])
  | true =>
    refine wellFounded_isParent_of_link (o := o) (c := c) hs.acyclic ?_ ?_ (hnot hslot)
    · intro p hp
      unfold IsParent at hp
      rw [parent?_eq, home?_link c _ hc, if_pos ⟨rfl, hslot⟩] at hp
      cases hp
      rfl
    · exact fun p d hne => hpar p d fun e => hne e.1

include ha

lemma held_of_home_link {p d : NodeHandle} {sl : Slot}
    (hd : (s.link o slot c).home? d = some ⟨p, sl⟩)
    (hp : (s.link o slot c).contains p = true) :
    sl.isComposition = true ∧ d ∈ (s.link o slot c).held p sl := by
  rw [contains_link] at hp
  rw [home?_link c _ hc] at hd
  rw [held_link hs.shaped ha c]
  split at hd
  · next e =>
    cases hd
    refine ⟨e.2, ?_⟩
    rw [if_pos ⟨rfl, rfl⟩, e.1]
    simp
  · split at hd
    · cases hd
    · next hr =>
      obtain ⟨hsl, hd⟩ := hs.held_of_home hd hp
      refine ⟨hsl, ?_⟩
      split
      · next e =>
        obtain ⟨rfl, rfl⟩ := e
        -- a slot for a single node would have made room
        have hl : ¬ sl.isSingle = true := fun hl => hr ((makesRoom_iff d ha).2 ⟨hl, hd⟩)
        rw [if_neg hl]
        exact List.mem_append_left _ hd
      · exact hd

lemma issued_link {d : NodeHandle} {home : Home} (hd : (s.link o slot c).home? d = some home) :
    (s.link o slot c).Issued home.owner := by
  rw [home?_link c _ hc] at hd
  rw [(samePlaces_link s o slot c).issued]
  split at hd
  · cases hd
    obtain ⟨n, hn, _⟩ := ha
    exact .of_contains (contains_iff.2 ⟨n, hn⟩)
  · split at hd
    · cases hd
    · exact hs.issued hd

variable
  (hout : slot.isComposition = true → ∀ p sl, sl.isComposition = true → c ∉ s.held p sl)
include hout

omit hc in
/-- What is in a slot for owned nodes is not what a link enters, and makes room only in the slot of
the link. -/
lemma link_aside {p d : NodeHandle} {sl : Slot} (hsl : sl.isComposition = true)
    (hd : d ∈ s.held p sl) :
    ¬ (d = c ∧ slot.isComposition = true) ∧ (s.makesRoom o slot d = true → p = o ∧ sl = slot) := by
  constructor
  · rintro ⟨rfl, hslot⟩
    exact hout hslot p sl hsl hd
  · intro hr
    obtain ⟨hl, hd'⟩ := (makesRoom_iff d ha).1 hr
    exact hs.eq_of_held hsl (Slot.isComposition_of_isSingle hl) hd hd'

lemma home_of_held_link {p d : NodeHandle} {sl : Slot} (hsl : sl.isComposition = true)
    (hd : d ∈ (s.link o slot c).held p sl) : (s.link o slot c).home? d = some ⟨p, sl⟩ := by
  rw [held_link hs.shaped ha c] at hd
  rw [home?_link c _ hc]
  split at hd
  · next e =>
    obtain ⟨rfl, rfl⟩ := e
    rw [List.mem_append, List.mem_singleton] at hd
    rcases hd with hd | rfl
    · split at hd
      · cases hd
      · next hl =>
        rw [if_neg (hs.link_aside ha hout hsl hd).1,
          if_neg fun hr => hl ((makesRoom_iff d ha).1 hr).1]
        exact hs.home_of_held hsl hd
    · rw [if_pos ⟨rfl, hsl⟩]
  · next e =>
    obtain ⟨hne, hr⟩ := hs.link_aside ha hout hsl hd
    rw [if_neg hne, if_neg fun h => e (hr h)]
    exact hs.home_of_held hsl hd

omit hc in
lemma nodup_link (p : NodeHandle) {sl : Slot} (hsl : sl.isComposition = true) :
    ((s.link o slot c).held p sl).Nodup := by
  rw [held_link hs.shaped ha c]
  split
  · next e =>
    obtain ⟨rfl, rfl⟩ := e
    split
    · simp
    · refine List.nodup_append.2 ⟨hs.nodup p hsl, by simp, ?_⟩
      rintro d hd _ (_ | ⟨_, ⟨⟩⟩) rfl
      exact hout hsl p sl hsl hd
  · exact hs.nodup p hsl

end Link

/-- Entering a node in a slot.  One that is to be owned is in no slot for owned nodes, and does not
own its owner. -/
lemma link (hs : s.Sound) {o c : NodeHandle} {slot : Slot} (ha : s.Accepts o slot)
    (hc : s.contains c = true)
    (hout : slot.isComposition = true →
      (∀ p sl, sl.isComposition = true → c ∉ s.held p sl) ∧ ¬ ReflTransGen s.IsParent c o) :
    (s.link o slot c).Sound := by
  have hfree := fun hslot => (hout hslot).1
  constructor
  · constructor
    · exact hs.home_of_held_link ha hc hfree
    · exact hs.held_of_home_link ha hc
    · exact hs.nodup_link ha hfree
    · exact hs.acyclic_link hc fun hslot => (hout hslot).2
  · exact (samePlaces_link s o slot c).intact hs.intact
  · exact hs.shaped.link ha c
  · exact hs.issued_link ha hc

/-- Adding a node. -/
lemma create (hs : s.Sound) (name : String) (content : Content) :
    (s.create name content).2.Sound := by
  have hget := hs.intact.get?_create name content
  have hhome : ∀ k, (s.create name content).2.home? k = s.home? k := by
    intro k
    rw [home?, hget]
    split
    · next e =>
      rw [home?, e, get?_nextHandle hs.intact]
      rfl
    · rfl
  have hheld := hs.intact.held_create name content
  constructor
  · constructor
    · intro p c slot hslot hc
      rw [hheld] at hc
      rw [hhome]
      exact hs.home_of_held hslot hc
    · intro p c slot hc hp
      rw [hhome] at hc
      rw [hheld]
      apply hs.held_of_home hc
      rwa [contains, hget, if_neg (hs.intact.ne_nextHandle (hs.issued hc))] at hp
    · intro p slot hslot
      rw [hheld]
      exact hs.nodup p hslot
    · apply wellFounded_isParent_of_le hs.acyclic
      intro p c hpc
      unfold IsParent at hpc ⊢
      rwa [parent?_eq, hhome, ← parent?_eq] at hpc
  · exact hs.intact.create name content
  · intro k n hn
    rw [hget] at hn
    split at hn
    · cases hn
      exact .new _ _ _
    · exact hs.shaped k n hn
  · intro c home hc
    rw [hhome] at hc
    exact (hs.issued hc).create hs.intact name content

end Sound

end Store

end Semdoc
