import Mathlib.Data.List.Nodup
import Mathlib.Tactic.Lemma
import Semdoc.Graph.Edit

/-!
# The slots of a node

Which slots a node has is decided by its content, except that the fields of an entity are made as
they are needed; this is `Node.Shaped`.  With it, a node can be seen as a function from slots to
rosters, `Node.rosterAt`, on which the editing of one slot is the update at one place.
-/

namespace Semdoc

namespace Roster

/-- Moving a node to the last position takes it out and appends it. -/
lemma moveTo_last (r : Roster) {h : NodeHandle} (hh : h ∈ r.items) :
    r.moveTo h (r.items.length - 1) = { r with items := r.items.erase h ++ [h] } := by
  have hlen : (r.items.erase h).length = r.items.length - 1 := List.length_erase_of_mem hh
  rw [moveTo, if_pos (by simpa [contains] using hh), ← hlen]
  simp only [Nat.min_self, List.insertIdx_length_self]

lemma moveTo_perm (r : Roster) (h : NodeHandle) (position : Nat) :
    (r.moveTo h position).index = r.index ∧ (r.moveTo h position).items.Perm r.items := by
  unfold moveTo
  split
  · next hh =>
    have hh : h ∈ r.items := by simpa [contains] using hh
    exact ⟨rfl, (List.perm_insertIdx h _ (Nat.min_le_right ..)).trans (List.perm_cons_erase hh).symm⟩
  · exact ⟨rfl, .refl _⟩

/-- What is moved to the end stays listed, and visible under its name. -/
lemma moveLast_perm (r : Roster) (last : NodeHandle → Bool) :
    (r.moveLast last).index = r.index ∧ (r.moveLast last).items.Perm r.items := by
  unfold moveLast
  generalize r.items.filter last = hs
  induction hs generalizing r with
  | nil => exact ⟨rfl, .refl _⟩
  | cons h hs ih =>
    obtain ⟨hindex, hperm⟩ := moveTo_perm r h (r.items.length - 1)
    obtain ⟨hindex', hperm'⟩ := ih (r.moveTo h (r.items.length - 1))
    exact ⟨hindex'.trans hindex, hperm'.trans hperm⟩

end Roster

namespace Content

lemma nodup_listSlots (c : Content) : c.listSlots.Nodup := by
  cases c with
  | type shape => cases shape <;> simp [listSlots]
  | _ => simp [listSlots]

lemma isSingle_of_mem_listSlots {c : Content} {slot : Slot} (hs : slot ∈ c.listSlots) :
    slot.isSingle = false := by
  have h := List.all_eq_true.1 c.not_isSingle_listSlots slot hs
  simpa using h

lemma isSingle_of_singleSlot? {c : Content} {slot : Slot} (hs : c.singleSlot? = some slot) :
    slot.isSingle = true := by
  cases c <;> simp only [singleSlot?, Option.some.injEq, reduceCtorEq] at hs
  all_goals exact hs ▸ rfl

end Content

namespace Node

/-- The roster of a slot, empty if the node does not have the slot. -/
def rosterAt (n : Node) (slot : Slot) : Roster := (n.roster? slot).getD {}

/-- The slots of a node are those that its content asks for, and a single node stands only in a node
with a slot for one. -/
structure Shaped (n : Node) : Prop where
  slots_eq : n.slots =
    if n.content.isEntity then (List.range n.rosters.length).map .entityField
    else n.content.listSlots
  single_slot : n.single.isSome → n.content.singleSlot?.isSome

lemma Shaped.new (uid : Nat) (name : String) (content : Content) :
    (Node.new uid name content).Shaped := by
  constructor
  · cases content <;> simp [Node.new, slots, Content.isEntity, Content.listSlots, Function.comp_def]
  · simp [Node.new]

lemma Shaped.nodup_slots {n : Node} (hn : n.Shaped) : n.slots.Nodup := by
  rw [hn.slots_eq]
  split
  · exact List.Nodup.map (fun a b e => by simpa using e) List.nodup_range
  · exact n.content.nodup_listSlots

lemma Shaped.not_isSingle {n : Node} (hn : n.Shaped) {slot : Slot} (hs : slot ∈ n.slots) :
    slot.isSingle = false := by
  rw [hn.slots_eq] at hs
  split at hs
  · obtain ⟨i, _, rfl⟩ := List.mem_map.1 hs
    rfl
  · exact Content.isSingle_of_mem_listSlots hs

lemma roster?_isSome_iff {n : Node} {slot : Slot} :
    (n.roster? slot).isSome = true ↔ slot ∈ n.slots := by
  simp [roster?, slots, List.find?_isSome]

lemma listed_eq (n : Node) (slot : Slot) : n.listed slot = (n.rosterAt slot).items := by
  unfold listed rosterAt
  cases n.roster? slot <;> rfl

lemma held_of_not_isSingle (n : Node) {slot : Slot} (hs : slot.isSingle = false) :
    n.held slot = (n.rosterAt slot).items := by
  simp [held, hs, listed_eq]

lemma rosterAt_of_roster? {n : Node} {slot : Slot} {r : Roster} (h : n.roster? slot = some r) :
    n.rosterAt slot = r := by
  simp [rosterAt, h]

lemma mem_rosters_of_roster? {n : Node} {slot : Slot} {r : Roster}
    (h : n.roster? slot = some r) : (slot, r) ∈ n.rosters := by
  obtain ⟨e, he, rfl⟩ := Option.map_eq_some_iff.1 h
  obtain rfl : e.1 = slot := by simpa using List.find?_some he
  exact List.mem_of_find?_eq_some he

/-- A roster with a node in it is that of a slot. -/
lemma mem_rosters_of_mem_items {n : Node} {slot : Slot} {c : NodeHandle}
    (hc : c ∈ (n.rosterAt slot).items) : (slot, n.rosterAt slot) ∈ n.rosters := by
  cases hr : n.roster? slot with
  | none => simp [rosterAt, hr] at hc
  | some r =>
    rw [rosterAt_of_roster? hr]
    exact mem_rosters_of_roster? hr

lemma mem_slots_of_mem_items {n : Node} {slot : Slot} {c : NodeHandle}
    (hc : c ∈ (n.rosterAt slot).items) : slot ∈ n.slots :=
  List.mem_map_of_mem (f := (·.1)) (mem_rosters_of_mem_items hc)

/-- The roster of a slot is the one that is kept under it. -/
lemma Shaped.rosterAt_of_mem {n : Node} (hn : n.Shaped) {slot : Slot} {r : Roster}
    (hr : (slot, r) ∈ n.rosters) : n.rosterAt slot = r := by
  have hs : (n.roster? slot).isSome = true := roster?_isSome_iff.2 (List.mem_map_of_mem hr)
  obtain ⟨r', hr'⟩ := Option.isSome_iff_exists.1 hs
  rw [rosterAt_of_roster? hr']
  have he := List.inj_on_of_nodup_map hn.nodup_slots (mem_rosters_of_roster? hr') hr rfl
  exact congrArg Prod.snd he

/-- A new node has nothing in its slots. -/
lemma rosterAt_new (uid : Nat) (name : String) (content : Content) (slot : Slot) :
    (Node.new uid name content).rosterAt slot = {} := by
  cases hr : (Node.new uid name content).roster? slot with
  | none => rw [rosterAt, hr, Option.getD_none]
  | some r =>
    obtain ⟨_, _, e⟩ := List.mem_map.1 (mem_rosters_of_roster? hr)
    rw [rosterAt_of_roster? hr]
    exact (congrArg Prod.snd e).symm

lemma held_new (uid : Nat) (name : String) (content : Content) (slot : Slot) :
    (Node.new uid name content).held slot = [] := by
  unfold held
  split
  · split <;> rfl
  · rw [listed_eq, rosterAt_new]

/-! ## Editing a slot -/

/-- Making fields that are missing does not show in the rosters. -/
lemma rosterAt_withSlot (n : Node) (slot sl : Slot) :
    (n.withSlot slot).rosterAt sl = n.rosterAt sl := by
  unfold withSlot
  split
  · split
    · next number _ =>
      unfold rosterAt roster? withFields
      rw [List.find?_append]
      cases hf : n.rosters.find? (fun e => e.1 == sl) with
      | some e => rfl
      | none =>
        rw [Option.none_or]
        cases hg : (List.map (fun i => (Slot.entityField (n.rosters.length + i), ({} : Roster)))
            (List.range (number + 1 - n.rosters.length))).find? (fun e => e.1 == sl) with
        | none => rfl
        | some e =>
          obtain ⟨i, _, rfl⟩ := List.mem_map.1 (List.mem_of_find?_eq_some hg)
          rfl
    · rfl
  · rfl

@[simp] lemma content_withSlot (n : Node) (slot : Slot) :
    (n.withSlot slot).content = n.content := by
  unfold withSlot
  split
  · split <;> rfl
  · rfl

@[simp] lemma single_withSlot (n : Node) (slot : Slot) : (n.withSlot slot).single = n.single := by
  unfold withSlot
  split
  · split <;> rfl
  · rfl

lemma Shaped.withSlot {n : Node} (hn : n.Shaped) (slot : Slot) : (n.withSlot slot).Shaped := by
  constructor
  · rw [content_withSlot]
    unfold Node.withSlot
    split
    · next number =>
      split
      · next he =>
        have hs := hn.slots_eq
        simp only [he, if_true, slots] at hs
        simp [slots, withFields, hs, List.range_add, Function.comp_def]
      · next he => simpa [he] using hn.slots_eq
    · exact hn.slots_eq
  · simpa using hn.single_slot

/-- A slot into which nodes can be put is there once the missing fields are made. -/
lemma Shaped.mem_slots_withSlot {n : Node} (hn : n.Shaped) {slot : Slot}
    (hs : slot.isSingle = false) (ha : n.accepts slot = true) : slot ∈ (n.withSlot slot).slots := by
  simp only [accepts, hs, Bool.false_eq_true, if_false, Bool.or_eq_true, Bool.and_eq_true] at ha
  rcases ha with ⟨hf, he⟩ | hr
  · cases slot with
    | entityField number =>
      rw [(hn.withSlot _).slots_eq]
      simp only [content_withSlot, he, if_true, List.mem_map, List.mem_range]
      refine ⟨number, ?_, rfl⟩
      simp only [Node.withSlot, he, if_true, withFields, List.length_append, List.length_map,
        List.length_range]
      omega
    | _ => simp [Slot.isField] at hf
  · rw [roster?_isSome_iff] at hr
    unfold Node.withSlot
    split
    · split
      · simp only [slots, withFields, List.map_append, List.mem_append]
        exact .inl hr
      · exact hr
    · exact hr

lemma roster?_editRoster (n : Node) (slot : Slot) (f : Roster → Roster) (sl : Slot) :
    (n.editRoster slot f).roster? sl =
      ((n.withSlot slot).roster? sl).map fun r => if sl = slot then f r else r := by
  have hp : ((fun e : Slot × Roster => e.1 == sl)
      ∘ fun e => if e.1 == slot then (e.1, f e.2) else e) = fun e => e.1 == sl := by
    funext e
    by_cases h : e.1 = slot <;> simp [h]
  simp only [editRoster, roster?, List.find?_map, hp, Option.map_map]
  cases hf : (n.withSlot slot).rosters.find? (fun e => e.1 == sl) with
  | none => rfl
  | some e =>
    have he : e.1 = sl := by simpa using List.find?_some hf
    by_cases h : sl = slot <;> simp [he, h]

lemma rosterAt_editRoster_of_ne (n : Node) {slot sl : Slot} (f : Roster → Roster)
    (hne : sl ≠ slot) : (n.editRoster slot f).rosterAt sl = n.rosterAt sl := by
  rw [← n.rosterAt_withSlot slot sl]
  unfold rosterAt
  rw [roster?_editRoster]
  simp [hne]

/-- Editing a slot changes its roster, and no other. -/
lemma Shaped.rosterAt_editRoster {n : Node} (hn : n.Shaped) {slot : Slot}
    (hs : slot.isSingle = false) (ha : n.accepts slot = true) (f : Roster → Roster) (sl : Slot) :
    (n.editRoster slot f).rosterAt sl = if sl = slot then f (n.rosterAt slot) else n.rosterAt sl := by
  split
  · next e =>
    subst e
    have hm := roster?_isSome_iff.2 (hn.mem_slots_withSlot hs ha)
    obtain ⟨r, hr⟩ := Option.isSome_iff_exists.1 hm
    rw [← n.rosterAt_withSlot sl sl]
    unfold rosterAt
    rw [roster?_editRoster, hr]
    simp
  · next e => exact n.rosterAt_editRoster_of_ne f e

/-- A slot that is edited holds what it held, up to what the edit does to the items of a roster. -/
lemma held_editRoster_rel {R : List NodeHandle → List NodeHandle → Prop} (hR : ∀ l, R l l)
    (n : Node) (slot : Slot) {f : Roster → Roster} (hf : ∀ r, R (f r).items r.items) (sl : Slot) :
    R ((n.editRoster slot f).held sl) (n.held sl) := by
  cases hl : sl.isSingle with
  | true =>
    obtain ⟨rosters, e⟩ : ∃ r, n.editRoster slot f = { n with rosters := r } := by
      unfold editRoster withSlot
      split
      · split
        · exact ⟨_, rfl⟩
        · exact ⟨_, rfl⟩
      · exact ⟨_, rfl⟩
    rw [e]
    simp only [held, hl, if_true]
    exact hR _
  | false =>
    have hw := n.rosterAt_withSlot slot sl
    rw [held_of_not_isSingle _ hl, held_of_not_isSingle _ hl, ← hw]
    unfold rosterAt
    rw [roster?_editRoster]
    cases (n.withSlot slot).roster? sl with
    | none => exact hR _
    | some r =>
      simp only [Option.map_some, Option.getD_some]
      split
      · exact hf r
      · exact hR _

@[simp] lemma content_editRoster (n : Node) (slot : Slot) (f : Roster → Roster) :
    (n.editRoster slot f).content = n.content := by
  simp [editRoster]

@[simp] lemma single_editRoster (n : Node) (slot : Slot) (f : Roster → Roster) :
    (n.editRoster slot f).single = n.single := by
  simp [editRoster]

/-- Editing a slot shows in no other one. -/
lemma held_editRoster_of_ne (n : Node) {slot sl : Slot} (f : Roster → Roster) (hne : sl ≠ slot) :
    (n.editRoster slot f).held sl = n.held sl := by
  cases hl : sl.isSingle with
  | true => simp only [held, hl, if_true, content_editRoster, single_editRoster]
  | false =>
    rw [held_of_not_isSingle _ hl, held_of_not_isSingle _ hl, n.rosterAt_editRoster_of_ne f hne]

lemma Shaped.editRoster {n : Node} (hn : n.Shaped) (slot : Slot) (f : Roster → Roster) :
    (n.editRoster slot f).Shaped := by
  have hs : (n.editRoster slot f).slots = (n.withSlot slot).slots := by
    simp only [Node.editRoster, slots, List.map_map]
    apply List.map_congr_left
    intro e _
    by_cases h : e.1 = slot <;> simp [h]
  have hl : (n.editRoster slot f).rosters.length = (n.withSlot slot).rosters.length := by
    simp [Node.editRoster]
  constructor
  · rw [hs, (hn.withSlot slot).slots_eq, hl]
    simp
  · simpa using hn.single_slot

/-! ## Putting in and taking out -/

@[simp] lemma content_put (n : Node) (slot : Slot) (c : NodeHandle) (name : String) :
    (n.put slot c name).content = n.content := by
  unfold put
  split <;> simp

@[simp] lemma content_take (n : Node) (slot : Slot) (c : NodeHandle) (name : String) :
    (n.take slot c name).content = n.content := by
  unfold take
  split <;> simp

/-- A slot for a single node accepts nodes exactly in a node that has it. -/
lemma accepts_of_isSingle {n : Node} {slot : Slot} (hs : slot.isSingle = true) :
    n.accepts slot = true ↔ n.content.singleSlot? = some slot := by
  simp [accepts, hs]

lemma accepts_of_mem_held {n : Node} {slot : Slot} {c : NodeHandle} (hc : c ∈ n.held slot) :
    n.accepts slot = true := by
  cases hs : slot.isSingle with
  | true =>
    rw [accepts_of_isSingle hs]
    by_contra h
    simp [held, hs, h] at hc
  | false =>
    rw [held_of_not_isSingle n hs] at hc
    simp [accepts, hs, roster?_isSome_iff.2 (mem_slots_of_mem_items hc)]

lemma Shaped.put {n : Node} (hn : n.Shaped) {slot : Slot} (ha : n.accepts slot = true)
    (c : NodeHandle) (name : String) : (n.put slot c name).Shaped := by
  unfold Node.put
  split
  · next hs =>
    rw [accepts_of_isSingle hs] at ha
    exact ⟨hn.slots_eq, fun _ => by simp [ha]⟩
  · exact hn.editRoster _ _

lemma Shaped.take {n : Node} (hn : n.Shaped) (slot : Slot) (c : NodeHandle) (name : String) :
    (n.take slot c name).Shaped := by
  unfold Node.take
  split
  · exact ⟨hn.slots_eq, fun h => by simp at h⟩
  · exact hn.editRoster _ _

/-- Another single node shows in the slot for it only. -/
lemma held_single {n : Node} {slot : Slot} (hs : slot.isSingle = true)
    (ha : n.accepts slot = true) (o : Option NodeHandle) (sl : Slot) :
    ({ n with single := o } : Node).held sl = if sl = slot then o.toList else n.held sl := by
  rw [accepts_of_isSingle hs] at ha
  split
  · next e => simp [held, e, hs, ha]
  · next e =>
    cases hl : sl.isSingle with
    | true =>
      have hne : n.content.singleSlot? ≠ some sl := by
        rw [ha]
        simpa using Ne.symm e
      simp [held, hl, hne]
    | false => simp [held, hl, listed, roster?]

/-- Another roster shows in its slot only. -/
lemma Shaped.held_editRoster {n : Node} (hn : n.Shaped) {slot : Slot}
    (hs : slot.isSingle = false) (ha : n.accepts slot = true) (f : Roster → Roster) (sl : Slot) :
    (n.editRoster slot f).held sl =
      if sl = slot then (f (n.rosterAt slot)).items else n.held sl := by
  cases hl : sl.isSingle with
  | true =>
    have e : sl ≠ slot := by
      rintro rfl
      simp [hs] at hl
    simp [held, hl, e]
  | false =>
    rw [held_of_not_isSingle _ hl, held_of_not_isSingle _ hl, hn.rosterAt_editRoster hs ha]
    split <;> rfl

/-- Putting a node in appends it, or makes it the single one. -/
lemma Shaped.held_put {n : Node} (hn : n.Shaped) {slot : Slot} (ha : n.accepts slot = true)
    (c : NodeHandle) (name : String) (sl : Slot) :
    (n.put slot c name).held sl =
      if sl = slot then (if slot.isSingle then [] else n.held slot) ++ [c] else n.held sl := by
  cases hs : slot.isSingle with
  | true =>
    simp only [Node.put, hs, if_true]
    exact held_single hs ha (some c) sl
  | false =>
    simp only [Node.put, hs, Bool.false_eq_true, if_false]
    rw [hn.held_editRoster hs ha, held_of_not_isSingle n hs]
    rfl

/-- Taking a node out erases its first occurrence. -/
lemma Shaped.held_take {n : Node} (hn : n.Shaped) {slot : Slot} {c : NodeHandle}
    (hc : c ∈ n.held slot) (name : String) (sl : Slot) :
    (n.take slot c name).held sl = if sl = slot then (n.held slot).erase c else n.held sl := by
  have ha := accepts_of_mem_held hc
  cases hs : slot.isSingle with
  | true =>
    simp only [Node.take, hs, if_true]
    rw [held_single hs ha]
    have hc' : n.single = some c := by
      rw [accepts_of_isSingle hs] at ha
      simpa [held, hs, ha, eq_comm] using hc
    rw [accepts_of_isSingle hs] at ha
    simp [held, hs, ha, hc']
  | false =>
    simp only [Node.take, hs, Bool.false_eq_true, if_false]
    rw [hn.held_editRoster hs ha, held_of_not_isSingle n hs, Roster.items_erase]

/-! ## What stays -/

/-- A change of nothing but what is in the slots. -/
def SlotsOnly (f : Node → Node) : Prop :=
  ∀ n, ∃ single rosters, f n = { n with single, rosters }

namespace SlotsOnly

lemma withSlot (slot : Slot) : SlotsOnly (·.withSlot slot) := by
  intro n
  show ∃ single rosters, n.withSlot slot = { n with single, rosters }
  unfold Node.withSlot
  split
  · split
    · exact ⟨n.single, _, rfl⟩
    · exact ⟨n.single, n.rosters, rfl⟩
  · exact ⟨n.single, n.rosters, rfl⟩

lemma editRoster (slot : Slot) (f : Roster → Roster) : SlotsOnly (·.editRoster slot f) := by
  intro n
  obtain ⟨o, r, e⟩ := SlotsOnly.withSlot slot n
  exact ⟨o, r.map fun e => if e.1 == slot then (e.1, f e.2) else e, by
    simp only [Node.editRoster, e]⟩

lemma put (slot : Slot) (c : NodeHandle) (name : String) : SlotsOnly (·.put slot c name) := by
  intro n
  show ∃ single rosters, n.put slot c name = { n with single, rosters }
  unfold Node.put
  split
  · exact ⟨some c, n.rosters, rfl⟩
  · exact editRoster _ _ n

lemma take (slot : Slot) (c : NodeHandle) (name : String) : SlotsOnly (·.take slot c name) := by
  intro n
  show ∃ single rosters, n.take slot c name = { n with single, rosters }
  unfold Node.take
  split
  · exact ⟨none, n.rosters, rfl⟩
  · exact editRoster _ _ n

variable {f : Node → Node} (hf : SlotsOnly f) (n : Node)
include hf

lemma home : (f n).home = n.home := by
  obtain ⟨o, r, e⟩ := hf n
  rw [e]

lemma name : (f n).name = n.name := by
  obtain ⟨o, r, e⟩ := hf n
  rw [e]

lemma listeners : (f n).listeners = n.listeners := by
  obtain ⟨o, r, e⟩ := hf n
  rw [e]

lemma validated : (f n).validated = n.validated := by
  obtain ⟨o, r, e⟩ := hf n
  rw [e]

end SlotsOnly

/-- A slot that is there stays there. -/
lemma accepts_editRoster {n : Node} {sl : Slot} (h : n.accepts sl = true) (slot : Slot)
    (f : Roster → Roster) : (n.editRoster slot f).accepts sl = true := by
  have hslots : sl ∈ n.slots → sl ∈ (n.editRoster slot f).slots := by
    intro hm
    rw [← roster?_isSome_iff] at hm ⊢
    rw [roster?_editRoster, Option.isSome_map]
    unfold withSlot
    split
    · split
      · simp only [withFields, roster?, List.find?_append]
        obtain ⟨r, hr⟩ := Option.isSome_iff_exists.1 hm
        obtain ⟨e, he, -⟩ := Option.map_eq_some_iff.1 hr
        simp [he]
      · exact hm
    · exact hm
  unfold accepts at h ⊢
  rw [content_editRoster]
  cases hs : sl.isSingle with
  | true => simpa [hs] using h
  | false =>
    simp only [hs, Bool.false_eq_true, if_false, Bool.or_eq_true, roster?_isSome_iff] at h ⊢
    exact h.imp_right hslots

lemma accepts_take {n : Node} {sl : Slot} (h : n.accepts sl = true) (slot : Slot)
    (c : NodeHandle) (name : String) : (n.take slot c name).accepts sl = true := by
  unfold take
  split
  · exact h
  · exact accepts_editRoster h _ _

/-- The nodes that are owned are those in the composition slots. -/
lemma Shaped.mem_owned_iff {n : Node} (hn : n.Shaped) {c : NodeHandle} :
    c ∈ n.owned ↔ ∃ slot : Slot, slot.isComposition = true ∧ c ∈ n.held slot := by
  have hmem : c ∈ n.owned ↔ n.single = some c ∨
      ∃ e ∈ n.rosters, e.1.isComposition = true ∧ c ∈ e.2.items := by
    simp [owned, edges, singleEdge, referenceEdges, listEdges]
    aesop
  rw [hmem]
  constructor
  · rintro (hc | ⟨⟨slot, r⟩, he, hcomp, hc⟩)
    · obtain ⟨slot, hslot⟩ := Option.isSome_iff_exists.1 (hn.single_slot (by simp [hc]))
      have hs := Content.isSingle_of_singleSlot? hslot
      exact ⟨slot, Slot.isComposition_of_isSingle hs, by simp [held, hs, hslot, hc]⟩
    · have hs : slot.isSingle = false := hn.not_isSingle (List.mem_map_of_mem he)
      refine ⟨slot, hcomp, ?_⟩
      rwa [held_of_not_isSingle n hs, hn.rosterAt_of_mem he]
  · rintro ⟨slot, hcomp, hc⟩
    cases hs : slot.isSingle with
    | true =>
      left
      simp only [held, hs, if_true] at hc
      split at hc <;> simp_all
    | false =>
      right
      rw [held_of_not_isSingle n hs] at hc
      exact ⟨_, mem_rosters_of_mem_items hc, hcomp, hc⟩

end Node

end Semdoc
