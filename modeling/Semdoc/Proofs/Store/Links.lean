import Semdoc.Proofs.Store.Views

/-!
# Links

A link is what a node in a slot leaves behind on both sides: an entry in the slot, a listener of the
node, and its home if the slot is one through which nodes are owned.  Attaching and removing come
down to `link` and `unlink`, whose effect is stated for each view of the store.
-/

namespace Semdoc

namespace Node

/-- What a link changes in the node with some handle `k`: it may be the one that gets an entry, the
one that is entered, and the one that makes room. -/
def linked (o : NodeHandle) (slot : Slot) (c : NodeHandle) (name : String) (room : Bool)
    (k : NodeHandle) (n : Node) : Node :=
  { (if k = o then n.put slot c name else n) with
    home :=
      if k = c ∧ slot.isComposition = true then some { owner := o, slot }
      else if room then none else n.home
    listeners :=
      if k = c ∧ slot.isSingle = false then n.listeners ++ [.roster o slot] else n.listeners }

/-- What the end of a link changes in the node with some handle `k`. -/
def unlinked (o : NodeHandle) (slot : Slot) (c : NodeHandle) (name : String) (k : NodeHandle)
    (n : Node) : Node :=
  { (if k = o then n.take slot c name else n) with
    home := if k = c ∧ slot.isComposition = true then none else n.home
    listeners := if k = c then n.listeners.erase (.roster o slot) else n.listeners }

/-- The node with another home. -/
def rehomed (n : Node) (home : Option Home) : Node := { n with home }

/-- The node with one more listener. -/
def listening (n : Node) (l : Listener) : Node := { n with listeners := n.listeners ++ [l] }

lemma put_rehomed (n : Node) (home : Option Home) (slot : Slot) (c : NodeHandle) (name : String) :
    (n.rehomed home).put slot c name = (n.put slot c name).rehomed home := by
  have hw : (n.rehomed home).withSlot slot = (n.withSlot slot).rehomed home := by
    cases slot with
    | entityField number =>
      show (if n.content.isEntity then _ else _) = (if n.content.isEntity then _ else _ : Node).rehomed _
      split <;> rfl
    | _ => rfl
  unfold put editRoster
  rw [hw]
  split <;> rfl

lemma Shaped.linked {n : Node} (hn : n.Shaped) {o c k : NodeHandle} {slot : Slot}
    (ha : k = o → n.accepts slot = true) (name : String) (room : Bool) :
    (n.linked o slot c name room k).Shaped := by
  have hp : (if k = o then n.put slot c name else n).Shaped := by
    split
    · next e => exact hn.put (ha e) c name
    · exact hn
  exact ⟨hp.slots_eq, hp.single_slot⟩

lemma Shaped.unlinked {n : Node} (hn : n.Shaped) (o : NodeHandle) (slot : Slot) (c : NodeHandle)
    (name : String) (k : NodeHandle) : (n.unlinked o slot c name k).Shaped := by
  have ht : (if k = o then n.take slot c name else n).Shaped := by
    split
    · exact hn.take slot c name
    · exact hn
  exact ⟨ht.slots_eq, ht.single_slot⟩

end Node

namespace Store

/-- Every node has the slots that its content asks for. -/
def Shaped (s : Store) : Prop := ∀ k n, s.get? k = some n → n.Shaped

/-- Nodes can be put into a slot of a node. -/
def Accepts (s : Store) (o : NodeHandle) (slot : Slot) : Prop :=
  ∃ n, s.get? o = some n ∧ n.accepts slot = true

/-- Enters a node in a slot, without telling who is no longer valid. -/
def link (s : Store) (o : NodeHandle) (slot : Slot) (c : NodeHandle) : Store :=
  let name := s.name c
  let s := if slot.isSingle then s.vacate o else s
  let s := s.modify o (·.put slot c name)
  let s := if slot.isSingle then s else s.modify c (·.listening (.roster o slot))
  if slot.isComposition then s.modify c (·.rehomed (some { owner := o, slot })) else s

/-- Strikes a node out of a slot, without telling who is no longer valid. -/
def unlink (s : Store) (o : NodeHandle) (slot : Slot) (c : NodeHandle) : Store :=
  let name := s.name c
  let s := s.modify o (·.take slot c name)
  let s := s.modify c (·.dropRosterListener o slot)
  if slot.isComposition then s.clearHome c else s

lemma place_eq (s : Store) (o : NodeHandle) (slot : Slot) (c : NodeHandle) :
    s.place o slot c =
      ((if slot.isComposition then (s.detach c).2 else s).link o slot c).invalidate o := rfl

lemma removeFrom_of_mem {s : Store} {o c : NodeHandle} {slot : Slot} (hc : c ∈ s.held o slot) :
    s.removeFrom o slot c = (true, (s.unlink o slot c).invalidate o) := by
  rw [removeFrom, if_pos (holds_iff.2 hc)]
  rfl

lemma removeFrom_of_not_mem {s : Store} {o c : NodeHandle} {slot : Slot}
    (hc : c ∉ s.held o slot) : s.removeFrom o slot c = (false, s) := by
  rw [removeFrom, if_neg (fun h => hc (holds_iff.1 h))]

/-- The node that has to make room. -/
def makesRoom (s : Store) (o : NodeHandle) (slot : Slot) (k : NodeHandle) : Bool :=
  slot.isSingle && (s.get? o).bind (·.single) == some k

lemma get?_modify' (s : Store) (h k : NodeHandle) (f : Node → Node) :
    (s.modify h f).get? k = (s.get? k).map fun n => if k = h then f n else n := by
  rw [get?_modify]
  split
  · next e => rw [e]
  · rw [Option.map_id']

lemma get?_clearHome (s : Store) (h k : NodeHandle) :
    (s.clearHome h).get? k = (s.get? k).map fun n => if k = h then n.rehomed none else n :=
  get?_modify' s h k _

lemma get?_vacate (s : Store) (o k : NodeHandle) :
    (s.vacate o).get? k =
      (s.get? k).map fun n => if (s.get? o).bind (·.single) = some k then n.rehomed none else n := by
  unfold vacate
  split
  · next p e =>
    rw [get?_clearHome, e]
    simp only [Option.some.injEq, eq_comm]
  · next e => simp [e]

lemma get?_link (s : Store) (o : NodeHandle) (slot : Slot) (c k : NodeHandle) :
    (s.link o slot c).get? k =
      (s.get? k).map (Node.linked o slot c (s.name c) (s.makesRoom o slot k) k) := by
  have hc : slot.isSingle = true → slot.isComposition = true := Slot.isComposition_of_isSingle
  unfold link makesRoom
  cases hs : slot.isSingle <;> cases hp : slot.isComposition <;>
    simp only [hs, hp, forall_const, reduceCtorEq] at hc <;>
    simp only [if_true, if_false, Bool.false_eq_true, get?_modify', get?_vacate, Option.map_map,
      Bool.true_and, Bool.false_and]
  all_goals
    congr 1
    funext n
    obtain ⟨single, rosters, e⟩ := Node.SlotsOnly.put slot c (s.name c) n
    simp only at e
    simp only [Function.comp_apply, apply_ite (Node.put · slot c (s.name c)), Node.put_rehomed, e]
    simp only [Node.linked, hs, hp, e, Node.rehomed, Node.listening, beq_iff_eq, and_true,
      and_false, if_false, reduceCtorEq, Bool.false_eq_true]
    split_ifs <;> rfl

lemma get?_unlink (s : Store) (o : NodeHandle) (slot : Slot) (c k : NodeHandle) :
    (s.unlink o slot c).get? k = (s.get? k).map (Node.unlinked o slot c (s.name c) k) := by
  unfold unlink
  cases hp : slot.isComposition <;>
    simp only [if_true, if_false, Bool.false_eq_true, get?_modify', get?_clearHome,
      Option.map_map]
  all_goals
    congr 1
    funext n
    obtain ⟨single, rosters, e⟩ := Node.SlotsOnly.take slot c (s.name c) n
    simp only at e
    simp only [Function.comp_apply, Node.unlinked, hp, e, Node.rehomed, Node.dropRosterListener,
      and_true, and_false, if_false, reduceCtorEq]
    split_ifs <;> rfl

lemma samePlaces_link (s : Store) (o : NodeHandle) (slot : Slot) (c : NodeHandle) :
    SamePlaces s (s.link o slot c) := by
  have hv : SamePlaces s (s.vacate o) := by
    unfold vacate
    split
    · exact .modify _ _ _
    · exact .refl s
  unfold link
  cases slot.isSingle <;> cases slot.isComposition <;>
    simp only [if_true, if_false, Bool.false_eq_true]
  · exact (SamePlaces.modify _ _ _).trans (.modify _ _ _)
  · exact ((SamePlaces.modify _ _ _).trans (.modify _ _ _)).trans (.modify _ _ _)
  · exact hv.trans (.modify _ _ _)
  · exact (hv.trans (.modify _ _ _)).trans (.modify _ _ _)

lemma samePlaces_unlink (s : Store) (o : NodeHandle) (slot : Slot) (c : NodeHandle) :
    SamePlaces s (s.unlink o slot c) := by
  have h1 := (SamePlaces.modify s o (·.take slot c (s.name c))).trans
    (.modify _ c (·.dropRosterListener o slot))
  unfold unlink
  simp only
  split
  · exact h1.trans (.modify _ _ _)
  · exact h1

section Link

variable {s : Store} (hs : s.Shaped) {o : NodeHandle} {slot : Slot} (ha : s.Accepts o slot)
  (c k : NodeHandle)

lemma contains_link : (s.link o slot c).contains k = s.contains k := by
  rw [contains, get?_link, Option.isSome_map, contains]

lemma name_link : (s.link o slot c).name k = s.name k := by
  unfold name
  rw [get?_link, Option.map_map]
  cases s.get? k with
  | none => rfl
  | some n =>
    simp only [Option.map_some, Option.getD_some, Function.comp_apply, Node.linked]
    split
    · exact (Node.SlotsOnly.put _ _ _).name n
    · rfl

lemma isValidated_link : (s.link o slot c).isValidated k = s.isValidated k := by
  unfold isValidated
  rw [get?_link, Option.map_map]
  cases s.get? k with
  | none => rfl
  | some n =>
    simp only [Option.map_some, Option.getD_some, Function.comp_apply, Node.linked]
    split
    · exact (Node.SlotsOnly.put _ _ _).validated n
    · rfl

include ha in
lemma Shaped.link (hs : s.Shaped) : (s.link o slot c).Shaped := by
  intro k n hn
  rw [get?_link] at hn
  obtain ⟨m, hm, rfl⟩ := Option.map_eq_some_iff.1 hn
  obtain ⟨m', hm', ha⟩ := ha
  apply (hs k m hm).linked
  rintro rfl
  rw [hm] at hm'
  cases hm'
  exact ha

include hs ha in
/-- The node is the last in the slot, or the only one. -/
lemma held_link (sl : Slot) :
    (s.link o slot c).held k sl =
      if k = o ∧ sl = slot then (if slot.isSingle then [] else s.held o slot) ++ [c]
      else s.held k sl := by
  obtain ⟨n, hn, ha⟩ := ha
  unfold held
  rw [get?_link, Option.map_map]
  by_cases hk : k = o
  · subst hk
    rw [hn]
    simp only [Option.map_some, Option.getD_some, Function.comp_apply, true_and]
    rw [← (hs k n hn).held_put ha c (s.name c) sl]
    simp only [Node.linked, if_true]
    rfl
  · simp only [hk, false_and, if_false]
    congr 2
    funext n
    simp only [Function.comp_apply, Node.linked, hk, if_false]
    rfl

include hs ha in
/-- The roster of a slot for lists gets the node with its name. -/
lemma rosterAt_link (hl : slot.isSingle = false) (sl : Slot) :
    (s.link o slot c).rosterAt k sl =
      if k = o ∧ sl = slot then (s.rosterAt o slot).push c (s.name c) else s.rosterAt k sl := by
  obtain ⟨n, hn, ha⟩ := ha
  unfold rosterAt
  rw [get?_link, Option.map_map]
  by_cases hk : k = o
  · subst hk
    rw [hn]
    simp only [Option.map_some, Option.getD_some, Function.comp_apply, true_and]
    rw [← (hs k n hn).rosterAt_editRoster hl ha (·.push c (s.name c)) sl]
    simp only [Node.linked, if_true, Node.put, hl, Bool.false_eq_true, if_false]
    rfl
  · simp only [hk, false_and, if_false]
    congr 2
    funext n
    simp only [Function.comp_apply, Node.linked, hk, if_false]
    rfl

/-- A slot for a single node has no roster. -/
lemma rosterAt_link_of_isSingle (hl : slot.isSingle = true) (sl : Slot) :
    (s.link o slot c).rosterAt k sl = s.rosterAt k sl := by
  unfold rosterAt
  rw [get?_link, Option.map_map]
  congr 2
  funext n
  simp only [Function.comp_apply, Node.linked, Node.put, hl, if_true]
  split <;> rfl

/-- The node is at home in the slot if that owns, and the node that makes room is nowhere. -/
lemma home?_link (hc : s.contains c = true) :
    (s.link o slot c).home? k =
      if k = c ∧ slot.isComposition = true then some { owner := o, slot }
      else if s.makesRoom o slot k then none else s.home? k := by
  unfold home?
  rw [get?_link]
  cases hn : s.get? k with
  | none =>
    have hk : k ≠ c := by
      rintro rfl
      simp [contains, hn] at hc
    simp [hk]
  | some n => rfl

/-- The node tells the roster of a slot for lists. -/
lemma listeners_link (hc : s.contains c = true) :
    (s.link o slot c).listeners k =
      if k = c ∧ slot.isSingle = false then s.listeners c ++ [.roster o slot]
      else s.listeners k := by
  unfold listeners
  rw [get?_link]
  cases hn : s.get? k with
  | none =>
    have hk : k ≠ c := by
      rintro rfl
      simp [contains, hn] at hc
    simp [hk]
  | some n =>
    simp only [Option.map_some, Option.getD_some, Node.linked]
    split
    · next e => simp [← e.1, hn]
    · rfl

/-- The node that makes room is the one in the slot for a single one. -/
lemma makesRoom_iff (ha : s.Accepts o slot) :
    s.makesRoom o slot k = true ↔ slot.isSingle = true ∧ k ∈ s.held o slot := by
  obtain ⟨n, hn, ha⟩ := ha
  rw [makesRoom, hn, Bool.and_eq_true]
  refine and_congr_right fun hl => ?_
  rw [Node.accepts_of_isSingle hl] at ha
  simp [held, hn, Node.held, hl, ha]

end Link

section Unlink

variable {s : Store} {o : NodeHandle} {slot : Slot} {c : NodeHandle} (k : NodeHandle)

lemma contains_unlink : (s.unlink o slot c).contains k = s.contains k := by
  rw [contains, get?_unlink, Option.isSome_map, contains]

lemma name_unlink : (s.unlink o slot c).name k = s.name k := by
  unfold name
  rw [get?_unlink, Option.map_map]
  cases s.get? k with
  | none => rfl
  | some n =>
    simp only [Option.map_some, Option.getD_some, Function.comp_apply, Node.unlinked]
    split
    · exact (Node.SlotsOnly.take _ _ _).name n
    · rfl

lemma isValidated_unlink : (s.unlink o slot c).isValidated k = s.isValidated k := by
  unfold isValidated
  rw [get?_unlink, Option.map_map]
  cases s.get? k with
  | none => rfl
  | some n =>
    simp only [Option.map_some, Option.getD_some, Function.comp_apply, Node.unlinked]
    split
    · exact (Node.SlotsOnly.take _ _ _).validated n
    · rfl

lemma Shaped.unlink (hs : s.Shaped) (o : NodeHandle) (slot : Slot) (c : NodeHandle) :
    (s.unlink o slot c).Shaped := by
  intro k n hn
  rw [get?_unlink] at hn
  obtain ⟨m, hm, rfl⟩ := Option.map_eq_some_iff.1 hn
  exact (hs k m hm).unlinked o slot c _ k

/-- The first occurrence of the node in the slot is gone. -/
lemma held_unlink (hs : s.Shaped) (hc : c ∈ s.held o slot) (sl : Slot) :
    (s.unlink o slot c).held k sl =
      if k = o ∧ sl = slot then (s.held o slot).erase c else s.held k sl := by
  obtain ⟨n, hn⟩ := contains_iff.1 (contains_of_mem_held hc)
  rw [held_of_get? hn] at hc ⊢
  unfold held
  rw [get?_unlink, Option.map_map]
  by_cases hk : k = o
  · subst hk
    rw [hn]
    simp only [Option.map_some, Option.getD_some, Function.comp_apply, true_and]
    rw [← (hs k n hn).held_take hc (s.name c) sl]
    simp only [Node.unlinked, if_true]
    rfl
  · simp only [hk, false_and, if_false]
    congr 2
    funext n
    simp only [Function.comp_apply, Node.unlinked, hk, if_false]
    rfl

/-- The roster of a slot for lists gives the node up under its name. -/
lemma rosterAt_unlink (hs : s.Shaped) (hc : c ∈ s.held o slot) (hl : slot.isSingle = false)
    (sl : Slot) :
    (s.unlink o slot c).rosterAt k sl =
      if k = o ∧ sl = slot then (s.rosterAt o slot).erase c (s.name c) else s.rosterAt k sl := by
  obtain ⟨n, hn⟩ := contains_iff.1 (contains_of_mem_held hc)
  rw [held_of_get? hn] at hc
  rw [rosterAt_of_get? hn]
  unfold rosterAt
  rw [get?_unlink, Option.map_map]
  by_cases hk : k = o
  · subst hk
    rw [hn]
    simp only [Option.map_some, Option.getD_some, Function.comp_apply, true_and]
    rw [← (hs k n hn).rosterAt_editRoster hl (Node.accepts_of_mem_held hc)
      (·.erase c (s.name c)) sl]
    simp only [Node.unlinked, if_true, Node.take, hl, Bool.false_eq_true, if_false]
    rfl
  · simp only [hk, false_and, if_false]
    congr 2
    funext n
    simp only [Function.comp_apply, Node.unlinked, hk, if_false]
    rfl

/-- A slot for a single node has no roster. -/
lemma rosterAt_unlink_of_isSingle (hl : slot.isSingle = true) (sl : Slot) :
    (s.unlink o slot c).rosterAt k sl = s.rosterAt k sl := by
  unfold rosterAt
  rw [get?_unlink, Option.map_map]
  congr 2
  funext n
  simp only [Function.comp_apply, Node.unlinked, Node.take, hl, if_true]
  split <;> rfl

/-- The node is nowhere at home if it was owned. -/
lemma home?_unlink :
    (s.unlink o slot c).home? k =
      if k = c ∧ slot.isComposition = true then none else s.home? k := by
  unfold home?
  rw [get?_unlink]
  cases hn : s.get? k with
  | none => simp
  | some n => rfl

/-- The node does not tell the roster any more. -/
lemma listeners_unlink :
    (s.unlink o slot c).listeners k =
      if k = c then (s.listeners c).erase (.roster o slot) else s.listeners k := by
  unfold listeners
  rw [get?_unlink]
  split
  · next e =>
    subst e
    cases s.get? k with
    | none => rfl
    | some n => simp [Node.unlinked]
  · next e =>
    cases s.get? k with
    | none => rfl
    | some n => simp [Node.unlinked, e]

end Unlink

end Store

end Semdoc
