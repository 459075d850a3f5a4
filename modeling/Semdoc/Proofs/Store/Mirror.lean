import Semdoc.Proofs.Store.Change

/-!
# Name indices

The index of a roster mirrors the roster: it has every node under its current name as often as the
node is listed, and nodes without a name not at all.  Both sides are compared by counting, so that
lists in which a node stands several times need no special care.  A store is mirrored in some of its slots
if the rosters of these are, and if every node has as many listeners for such a roster as it has occurrences
there; by the latter a new name reaches each occurrence exactly once.
-/

namespace Semdoc

/-- The index of a roster mirrors its items as they are named. -/
def Roster.Mirrors (r : Roster) (name : NodeHandle → String) : Prop :=
  ∀ x c, r.index.entries.count (x, c) = if x ≠ "" ∧ name c = x then r.items.count c else 0

namespace NameIndex

variable (i : NameIndex) (old new : String) (h c : NodeHandle) (x : String)

lemma count_insert : (i.insert new h).entries.count (x, c) =
    i.entries.count (x, c) + if x = new ∧ c = h ∧ new ≠ "" then 1 else 0 := by
  unfold insert
  by_cases hn : new = ""
  · simp [hn]
  · simp only [beq_iff_eq, hn, if_false, List.count_append, ne_eq, not_false_eq_true, and_true]
    congr 1
    simp only [List.count_singleton, beq_iff_eq, Prod.mk.injEq, @eq_comm _ new, @eq_comm _ h]

lemma count_erase : (i.erase old h).entries.count (x, c) =
    i.entries.count (x, c) - if x = old ∧ c = h then 1 else 0 := by
  unfold erase
  simp only [List.count_erase, beq_iff_eq, Prod.mk.injEq, @eq_comm _ old, @eq_comm _ h]

/-- After some renamings of the same kind as many entries have moved, as far as there were so many. -/
lemma count_rename_iterate (hne : old ≠ new) (k : Nat) :
    ((·.rename old new h)^[k] i).entries.count (x, c) =
      if c = h ∧ x = new ∧ new ≠ "" then i.entries.count (x, c) + k
      else if c = h ∧ x = old then i.entries.count (x, c) - k
      else i.entries.count (x, c) := by
  induction k with
  | zero => simp
  | succ k ih =>
    rw [Function.iterate_succ_apply', rename, count_insert, count_erase, ih]
    by_cases hc : c = h
    · by_cases h1 : x = new
      · subst h1
        by_cases h3 : x = ""
        · simp [h3, h3 ▸ hne]
        · simp [hc, hne.symm, h3]
          omega
      · by_cases h2 : x = old
        · simp [hc, h2, hne]
          omega
        · simp [h1, h2]
    · simp [hc]

end NameIndex

namespace Roster

lemma index_rename_iterate (r : Roster) (old new : String) (h : NodeHandle) (k : Nat) :
    ((·.rename old new h)^[k] r).index = (·.rename old new h)^[k] r.index ∧
      ((·.rename old new h)^[k] r).items = r.items := by
  induction k with
  | zero => exact ⟨rfl, rfl⟩
  | succ k ih =>
    rw [Function.iterate_succ_apply', Function.iterate_succ_apply', ← ih.1]
    exact ⟨rfl, ih.2⟩

namespace Mirrors

variable {r : Roster} {name : NodeHandle → String}

lemma empty (name : NodeHandle → String) : Mirrors {} name := by
  intro x c
  simp

lemma congr (hr : r.Mirrors name) {name' : NodeHandle → String}
    (hn : ∀ c ∈ r.items, name' c = name c) : r.Mirrors name' := by
  intro x c
  rw [hr]
  by_cases hc : c ∈ r.items
  · rw [hn c hc]
  · simp [List.count_eq_zero_of_not_mem hc]

lemma of_perm (hr : r.Mirrors name) {r' : Roster} (hi : r'.index = r.index)
    (hp : r'.items.Perm r.items) : r'.Mirrors name := by
  intro x c
  rw [hi, hr, hp.count_eq]

lemma push (hr : r.Mirrors name) (h : NodeHandle) : (r.push h (name h)).Mirrors name := by
  intro x c
  show (r.index.insert (name h) h).entries.count (x, c) = _
  rw [NameIndex.count_insert, hr, items_push, List.count_append, List.count_singleton]
  by_cases hc : c = h
  · subst hc
    by_cases hx : name c = x
    · subst hx
      by_cases he : name c = "" <;> simp [he]
    · simp [hx, Ne.symm hx]
  · simp [hc, Ne.symm hc]

lemma erase (hr : r.Mirrors name) (h : NodeHandle) : (r.erase h (name h)).Mirrors name := by
  unfold Roster.erase
  split
  · intro x c
    show (r.index.erase (name h) h).entries.count (x, c) = _
    rw [NameIndex.count_erase, hr, List.count_erase]
    by_cases hc : c = h
    · subst hc
      by_cases hx : name c = x
      · subst hx
        by_cases he : name c = "" <;> simp [he]
      · simp [hx, Ne.symm hx]
    · simp [hc, Ne.symm hc]
  · exact hr

/-- A node that takes another name is found under that once each of its occurrences is renamed. -/
lemma rename (hr : r.Mirrors name) {h : NodeHandle} {new : String} (hne : name h ≠ new)
    {name' : NodeHandle → String} (hh : name' h = new) (ho : ∀ c, c ≠ h → name' c = name c) :
    ((·.rename (name h) new h)^[r.items.count h] r).Mirrors name' := by
  intro x c
  obtain ⟨hindex, hitems⟩ := r.index_rename_iterate (name h) new h (r.items.count h)
  rw [hindex, hitems, NameIndex.count_rename_iterate _ _ _ _ _ _ hne, hr]
  by_cases hc : c = h
  · subst hc
    rw [hh]
    by_cases h1 : x = new
    · subst h1
      by_cases he : x = "" <;> simp [he, hne]
    · by_cases h2 : x = name c
      · subst h2
        by_cases he : name c = "" <;> simp [he, hne, Ne.symm h1]
      · simp [h1, h2, Ne.symm h1, Ne.symm h2]
  · simp [hc, ho c hc]

/-- What the index has under a name are the listed nodes that carry it. -/
lemma nodesNamed_perm (hr : r.Mirrors name) {x : String} (hx : x ≠ "") :
    (r.index.nodesNamed x).Perm (r.items.filter fun c => name c == x) := by
  rw [List.perm_iff_count]
  intro c
  have hcount : (r.index.nodesNamed x).count c = r.index.entries.count (x, c) := by
    unfold NameIndex.nodesNamed
    induction r.index.entries with
    | nil => rfl
    | cons e rest ih =>
      obtain ⟨y, d⟩ := e
      by_cases hy : y = x
      · simp [hy, List.count_cons, ih]
      · simp [hy, ih]
  rw [hcount, hr]
  by_cases hc : name c = x
  · rw [List.count_filter (by simp [hc]), if_pos ⟨hx, hc⟩]
  · rw [if_neg fun h => hc h.2, List.count_eq_zero_of_not_mem]
    simp [hc]

lemma mem_entries_iff (hr : r.Mirrors name) {x : String} {c : NodeHandle} :
    (x, c) ∈ r.index.entries ↔ x ≠ "" ∧ name c = x ∧ c ∈ r.items := by
  rw [← List.count_pos_iff, hr, ← List.count_pos_iff]
  by_cases h : x ≠ "" ∧ name c = x
  · simp [h]
  · simp only [h, if_false, Nat.lt_irrefl, false_iff]
    exact fun e => h ⟨e.1, e.2.1⟩

/-- What is visible under a name is listed and carries it. -/
lemma of_resolve? (hr : r.Mirrors name) {x : String} {c : NodeHandle}
    (h : r.resolve? x = some c) : c ∈ r.items ∧ name c = x := by
  obtain ⟨e, he, rfl⟩ := Option.map_eq_some_iff.1 h
  obtain rfl : e.1 = x := by simpa using List.find?_some he
  obtain ⟨_, hn, hm⟩ := hr.mem_entries_iff.1 (List.mem_of_find?_eq_some he)
  exact ⟨hm, hn⟩

/-- What is listed and carries a name makes something visible under that. -/
lemma resolve?_isSome (hr : r.Mirrors name) {c : NodeHandle} (hc : c ∈ r.items)
    (hn : name c ≠ "") : (r.resolve? (name c)).isSome = true := by
  have he := hr.mem_entries_iff.2 ⟨hn, rfl, hc⟩
  simp only [resolve?, NameIndex.get?, Option.isSome_map, List.find?_isSome]
  exact ⟨_, he, by simp⟩

end Mirrors

end Roster

namespace Store

/-- In some slots every index mirrors its roster, and every node tells the rosters in which it is, as
often as it is there. -/
structure Mirrored (s : Store) (P : Slot → Prop) : Prop where
  mirrors : ∀ o slot, P slot → (s.rosterAt o slot).Mirrors s.name
  listeners : ∀ c o slot, P slot →
    (s.listeners c).count (.roster o slot) = (s.rosterAt o slot).items.count c

/-- Only slots for lists have rosters. -/
lemma Shaped.rosterAt_of_isSingle {s : Store} (hs : s.Shaped) {o : NodeHandle} {slot : Slot}
    (hl : slot.isSingle = true) : s.rosterAt o slot = {} := by
  unfold rosterAt
  cases hn : s.get? o with
  | none => rfl
  | some n =>
    rw [Option.map_some, Option.getD_some, Node.rosterAt]
    cases hr : n.roster? slot with
    | none => rfl
    | some r =>
      have hm := (hs o n hn).not_isSingle (Node.roster?_isSome_iff.1 (Option.isSome_of_eq_some hr))
      rw [hl] at hm
      cases hm

/-- What is in a roster is in a slot for lists. -/
lemma Shaped.mem_held_of_mem_items {s : Store} (hs : s.Shaped) {o c : NodeHandle} {slot : Slot}
    (hc : c ∈ (s.rosterAt o slot).items) : slot.isSingle = false ∧ c ∈ s.held o slot := by
  cases hl : slot.isSingle with
  | true =>
    rw [hs.rosterAt_of_isSingle hl] at hc
    cases hc
  | false =>
    rw [held_of_not_isSingle s o hl]
    exact ⟨rfl, hc⟩

namespace Mirrored

variable {s s' : Store} {P : Slot → Prop}

/-- Only the order of the items may differ. -/
lemma of_perm (hs : s.Mirrored P) (hn : s'.name = s.name)
    (hl : ∀ c o slot, P slot → (s'.listeners c).count (.roster o slot) =
      (s.listeners c).count (.roster o slot))
    (hr : ∀ o slot, (s'.rosterAt o slot).index = (s.rosterAt o slot).index ∧
      (s'.rosterAt o slot).items.Perm (s.rosterAt o slot).items) : s'.Mirrored P := by
  constructor
  · intro o slot hp
    rw [hn]
    exact (hs.mirrors o slot hp).of_perm (hr o slot).1 (hr o slot).2
  · intro c o slot hp
    rw [hl c o slot hp, hs.listeners c o slot hp, (hr o slot).2.count_eq]

lemma of_sameNodes (hs : s.Mirrored P) (h : SameNodes s s') : s'.Mirrored P := by
  apply hs.of_perm (funext h.name)
  · intro c o slot _
    rw [h.listeners]
  · intro o slot
    rw [h.rosterAt]
    exact ⟨rfl, .refl _⟩

/-- Changing what shows neither in the name nor in the slots of a node, nor in the rosters that it
tells. -/
lemma modify_aside (hs : s.Mirrored P) (h : NodeHandle) {f : Node → Node}
    (hn : ∀ n, (f n).name = n.name) (hr : ∀ n, (f n).rosters = n.rosters)
    (hl : ∀ n o slot, (f n).listeners.count (.roster o slot) =
      n.listeners.count (.roster o slot)) : (s.modify h f).Mirrored P := by
  apply hs.of_perm
  · funext k
    rw [name, map_get?_modify _ s h k hn, name]
  · intro c o slot _
    rw [listeners_modify]
    split
    · next e =>
      subst e
      unfold Store.listeners
      cases s.get? c with
      | none => rfl
      | some n => exact hl n o slot
    · rfl
  · intro o slot
    have e : (s.modify h f).rosterAt o slot = s.rosterAt o slot := by
      unfold rosterAt
      rw [map_get?_modify]
      intro n
      simp only [Node.rosterAt, Node.roster?, hr]
    rw [e]
    exact ⟨rfl, .refl _⟩

lemma sort (hs : s.Mirrored P) (h : NodeHandle) (slot : Slot) (last : NodeHandle → Bool) :
    (s.modify h (·.editRoster slot (·.moveLast last))).Mirrored P := by
  have hslots := Node.SlotsOnly.editRoster slot (·.moveLast last)
  apply hs.of_perm
  · funext k
    rw [name, map_get?_modify _ s h k hslots.name, name]
  · intro c o sl _
    rw [Store.listeners, map_get?_modify _ s h c hslots.listeners, Store.listeners]
  · intro o sl
    rw [rosterAt_modify]
    split
    · next e =>
      subst e
      unfold rosterAt
      cases s.get? o with
      | none => exact ⟨rfl, .refl _⟩
      | some n =>
        rw [Option.map_some, Option.getD_some, Option.map_some, Option.getD_some,
          ← n.rosterAt_withSlot slot sl]
        unfold Node.rosterAt
        rw [Node.roster?_editRoster]
        cases (n.withSlot slot).roster? sl with
        | none => exact ⟨rfl, .refl _⟩
        | some r =>
          rw [Option.map_some, Option.getD_some, Option.getD_some]
          split
          · exact r.moveLast_perm last
          · exact ⟨rfl, .refl _⟩
    · exact ⟨rfl, .refl _⟩

/-- A new node is in no slot, and there is nothing in its own. -/
lemma create (hs : s.Mirrored P) (hsh : s.Shaped) (hi : s.Intact)
    (hheld : ∀ {p c : NodeHandle} {slot : Slot}, P slot → c ∈ s.held p slot → s.contains c = true)
    (name : String) (content : Content) : (s.create name content).2.Mirrored P := by
  have hget := hi.get?_create name content
  have hnone := get?_nextHandle hi
  have hroster : ∀ o slot, (s.create name content).2.rosterAt o slot = s.rosterAt o slot := by
    intro o slot
    unfold rosterAt
    rw [hget]
    split
    · next e =>
      rw [e, hnone]
      exact Node.rosterAt_new _ _ _ _
    · rfl
  constructor
  · intro o slot hp
    rw [hroster]
    apply (hs.mirrors o slot hp).congr
    intro c hc
    have hne := ne_nextHandle hi (hheld hp (hsh.mem_held_of_mem_items hc).2)
    rw [Store.name, hget, if_neg hne, Store.name]
  · intro c o slot hp
    rw [hroster, ← hs.listeners c o slot hp]
    unfold Store.listeners
    rw [hget]
    split
    · next e =>
      rw [e, hnone]
      rfl
    · rfl

lemma unlink (hs : s.Mirrored P) (hsh : s.Shaped) {o c : NodeHandle} {slot : Slot}
    (hc : c ∈ s.held o slot) : (s.unlink o slot c).Mirrored P := by
  have hname : (s.unlink o slot c).name = s.name := funext fun k => name_unlink k
  cases hl : slot.isSingle with
  | true =>
    apply hs.of_perm hname
    · intro d k sl hp
      rw [listeners_unlink]
      split
      · next e =>
        subst e
        rw [List.count_erase]
        split
        · next e =>
          -- there is no such listener that could be erased
          have hnil := hs.listeners d k sl hp
          have e' : Listener.roster o slot = .roster k sl := by simpa using e
          cases e'
          rw [hnil, hsh.rosterAt_of_isSingle hl]
          rfl
        · rfl
      · rfl
    · intro k sl
      rw [rosterAt_unlink_of_isSingle k hl]
      exact ⟨rfl, .refl _⟩
  | false =>
    have hr := fun k sl => rosterAt_unlink k hsh hc hl sl
    constructor
    · intro k sl hp
      rw [hname, hr]
      split
      · next e => exact (hs.mirrors o slot (e.2 ▸ hp)).erase c
      · exact hs.mirrors k sl hp
    · intro d k sl hp
      -- only the node that is struck out loses a listener, and only one for this roster
      rw [hr, listeners_unlink]
      by_cases hk : k = o ∧ sl = slot
      · obtain ⟨rfl, rfl⟩ := hk
        rw [if_pos (⟨rfl, rfl⟩ : k = k ∧ sl = sl), Roster.items_erase]
        by_cases hd : d = c
        · rw [if_pos hd, hd, List.count_erase_self, List.count_erase_self, hs.listeners _ _ _ hp]
        · rw [if_neg hd, List.count_erase_of_ne hd, hs.listeners _ _ _ hp]
      · rw [if_neg hk, ← hs.listeners _ _ _ hp]
        split
        · next hd =>
          rw [hd, List.count_erase_of_ne]
          rintro e
          cases e
          exact hk ⟨rfl, rfl⟩
        · rfl

lemma link (hs : s.Mirrored P) (hsh : s.Shaped) {o c : NodeHandle} {slot : Slot}
    (ha : s.Accepts o slot) (hc : s.contains c = true) : (s.link o slot c).Mirrored P := by
  have hname : (s.link o slot c).name = s.name := funext fun k => name_link c k
  cases hl : slot.isSingle with
  | true =>
    apply hs.of_perm hname
    · intro d k sl _
      rw [listeners_link c d hc, if_neg (by simp [hl])]
    · intro k sl
      rw [rosterAt_link_of_isSingle c k hl]
      exact ⟨rfl, .refl _⟩
  | false =>
    have hr := fun k sl => rosterAt_link hsh ha c k hl sl
    constructor
    · intro k sl hp
      rw [hname, hr]
      split
      · next e => exact (hs.mirrors o slot (e.2 ▸ hp)).push c
      · exact hs.mirrors k sl hp
    · intro d k sl hp
      -- only the node that is entered gets a listener, and only one for this roster
      rw [hr, listeners_link c d hc]
      by_cases hk : k = o ∧ sl = slot
      · obtain ⟨rfl, rfl⟩ := hk
        rw [if_pos (⟨rfl, rfl⟩ : k = k ∧ sl = sl), Roster.items_push, List.count_append]
        by_cases hd : d = c
        · rw [if_pos ⟨hd, hl⟩, hd, List.count_append, hs.listeners _ _ _ hp]
          simp
        · rw [if_neg fun e => hd e.1, hs.listeners _ _ _ hp]
          simp [Ne.symm hd]
      · rw [if_neg hk, ← hs.listeners _ _ _ hp]
        split
        · next hd =>
          have hne : Listener.roster o slot ≠ .roster k sl := by
            rintro e
            cases e
            exact hk ⟨rfl, rfl⟩
          rw [hd.1, List.count_append]
          simp [hne]
        · rfl

end Mirrored

/-- Telling another roster about a new name leaves a roster as it is. -/
lemma rosterAt_tell_of_ne (s : Store) (old new : String) (h : NodeHandle) {o p : NodeHandle}
    {slot sl : Slot} (hne : Listener.roster p sl ≠ .roster o slot) :
    (s.tell old new h (.roster p sl)).2.rosterAt o slot = s.rosterAt o slot := by
  show Store.rosterAt ((s.modify p _).invalidate p) o slot = _
  rw [(SameNodes.invalidate _ p).rosterAt, rosterAt_modify]
  split
  · next e =>
    subst e
    have hsl : slot ≠ sl := by
      rintro rfl
      exact hne rfl
    unfold rosterAt
    cases s.get? o with
    | none => rfl
    | some n =>
      rw [Option.map_some, Option.getD_some, Option.map_some, Option.getD_some,
        n.rosterAt_editRoster_of_ne _ hsl]
  · rfl

/-- A roster with something in it is renamed in as often as it is among the listeners. -/
lemma rosterAt_tellAll {old new : String} {h o : NodeHandle} {slot : Slot} :
    ∀ {ls : List Listener} {s : Store}, s.Shaped →
      (.roster o slot ∈ ls → ∃ c, c ∈ (s.rosterAt o slot).items) →
      (s.tellAll old new h ls).rosterAt o slot =
        (·.rename old new h)^[ls.count (.roster o slot)] (s.rosterAt o slot) := by
  intro ls
  induction ls with
  | nil => exact fun _ _ => rfl
  | cons l rest ih =>
    intro s hsh hitems
    show Store.rosterAt (tellAll (s.tell old new h l).2 old new h rest) o slot = _
    by_cases hl : l = .roster o slot
    · -- the slot is there since something is in it
      subst hl
      obtain ⟨c, hc⟩ := hitems List.mem_cons_self
      obtain ⟨hs, hm⟩ := hsh.mem_held_of_mem_items hc
      obtain ⟨n, hn⟩ := contains_iff.1 (contains_of_mem_held hm)
      rw [held_of_get? hn] at hm
      have ht : (s.tell old new h (.roster o slot)).2.rosterAt o slot =
          (s.rosterAt o slot).rename old new h := by
        show Store.rosterAt ((s.modify o _).invalidate o) o slot = _
        rw [(SameNodes.invalidate _ o).rosterAt, rosterAt_modify, if_pos rfl, hn, Option.map_some,
          Option.getD_some, rosterAt_of_get? hn,
          (hsh o n hn).rosterAt_editRoster hs (Node.accepts_of_mem_held hm), if_pos rfl]
      rw [ih ((Quiet.tell s _ _ _ _).shaped hsh), ht, List.count_cons_self,
        Function.iterate_succ_apply]
      intro _
      rw [ht]
      exact ⟨c, hc⟩
    · have ht : (s.tell old new h l).2.rosterAt o slot = s.rosterAt o slot := by
        cases l with
        | roster p sl => exact rosterAt_tell_of_ne s old new h hl
        | watcher number =>
          -- a watcher hears of the name and changes nothing
          simp only [tell]
          split <;> rfl
      rw [ih ((Quiet.tell s _ _ _ _).shaped hsh), ht, List.count_cons_of_ne hl]
      intro hm
      rw [ht]
      exact hitems (List.mem_cons_of_mem l hm)

/-- A node has another name, and nobody has been told. -/
structure Renamed (s t : Store) (h : NodeHandle) (new : String) : Prop where
  rosterAt : ∀ o slot, t.rosterAt o slot = s.rosterAt o slot
  listeners : ∀ k, t.listeners k = s.listeners k
  name : ∀ k, t.name k = if k = h then new else s.name k

lemma renamed {s : Store} {h : NodeHandle} (hc : s.contains h = true) (new : String) :
    Renamed s ((s.modify h fun n => { n with name := new }).invalidate h) h new := by
  have hi := SameNodes.invalidate (s.modify h fun n => { n with name := new }) h
  refine ⟨fun o slot => ?_, fun k => ?_, fun k => ?_⟩
  · rw [hi.rosterAt, Store.rosterAt, Store.rosterAt,
      map_get?_modify (f := fun n => { n with name := new }) _ s h o fun _ => rfl]
  · rw [hi.listeners, Store.listeners, Store.listeners,
      map_get?_modify (f := fun n => { n with name := new }) _ s h k fun _ => rfl]
  · obtain ⟨n, hn⟩ := contains_iff.1 hc
    rw [hi.name, Store.name, get?_modify, hn]
    split
    · rfl
    · rfl

/-- Telling others about a new name changes neither names nor listeners. -/
lemma name_listeners_tellAll (old new : String) (h : NodeHandle) (ls : List Listener) (s : Store)
    (k : NodeHandle) :
    (s.tellAll old new h ls).name k = s.name k ∧
      (s.tellAll old new h ls).listeners k = s.listeners k := by
  have htell : ∀ (s : Store) (l : Listener), (s.tell old new h l).2.name k = s.name k ∧
      (s.tell old new h l).2.listeners k = s.listeners k := by
    intro s l
    cases l with
    | watcher number =>
      simp only [tell]
      split <;> exact ⟨rfl, rfl⟩
    | roster o slot =>
      have hslots := Node.SlotsOnly.editRoster slot (·.rename old new h)
      have hi := SameNodes.invalidate (s.modify o (·.editRoster slot (·.rename old new h))) o
      constructor
      · rw [tell, hi.name, name, map_get?_modify _ s o k hslots.name, name]
      · rw [tell, hi.listeners, listeners, map_get?_modify _ s o k hslots.listeners, listeners]
  induction ls generalizing s with
  | nil => exact ⟨rfl, rfl⟩
  | cons l rest ih =>
    obtain ⟨h1, h2⟩ := ih (s.tell old new h l).2
    obtain ⟨h3, h4⟩ := htell s l
    exact ⟨h1.trans h3, h2.trans h4⟩

namespace Mirrored

variable {s s' : Store} {P : Slot → Prop}

/-- A new name reaches every roster in which the node is. -/
lemma setName (hs : s.Mirrored P) (hsh : s.Shaped) (h : NodeHandle) (new : String) :
    (s.setName h new).2.Mirrored P := by
  rw [snd_setName]
  split
  · next hnew =>
    obtain ⟨hc, hne⟩ := hnew
    have hr := renamed hc new
    have hshaped : ((s.modify h fun n => { n with name := new }).invalidate h).Shaped :=
      ((Quiet.rename s h new).trans (.invalidate _ h)).shaped hsh
    generalize (s.modify h fun n => { n with name := new }).invalidate h = t at hr hshaped
    -- a listener stands for an occurrence, so none of them is told in vain
    have hlist : ∀ o slot, P slot → .roster o slot ∈ s.listeners h →
        ∃ c, c ∈ (t.rosterAt o slot).items := by
      intro o slot hp hm
      refine ⟨h, ?_⟩
      rw [hr.rosterAt, ← List.count_pos_iff, ← hs.listeners h o slot hp]
      exact List.count_pos_iff.2 hm
    have hall := fun o slot hp =>
      @rosterAt_tellAll (s.name h) new h o slot _ _ hshaped (hlist o slot hp)
    have htell := name_listeners_tellAll (s.name h) new h (s.listeners h) t
    constructor
    · intro o slot hp
      rw [hall o slot hp, hr.rosterAt, hs.listeners h o slot hp]
      apply (hs.mirrors o slot hp).rename hne
      · rw [(htell h).1, hr.name, if_pos rfl]
      · intro c hne'
        rw [(htell c).1, hr.name, if_neg hne']
    · intro c o slot hp
      rw [hall o slot hp, (htell c).2, hr.listeners, hr.rosterAt,
        (Roster.index_rename_iterate _ _ _ _ _).2, hs.listeners c o slot hp]
  · exact hs

end Mirrored

/-- Every elementary change keeps a store mirrored. -/
theorem Mirrored.change {s s' : Store} {P : Slot → Prop} (hm : s.Mirrored P) (hs : s.Sound)
    (hheld : ∀ {p c : NodeHandle} {slot : Slot}, P slot → c ∈ s.held p slot → s.contains c = true)
    (h : Change s s') : s'.Mirrored P := by
  cases h with
  | create name content he => exact hm.create hs.shaped hs.intact hheld name content
  | invalidate h => exact hm.of_sameNodes (.invalidate s h)
  | revise h f hf hc => exact hm.modify_aside h (fun _ => rfl) (fun _ => rfl) fun _ _ _ => rfl
  | sort h slot last hc => exact hm.sort h slot last
  | remove o slot c =>
    by_cases hc : c ∈ s.held o slot
    · rw [removeFrom_of_mem hc]
      exact (hm.unlink hs.shaped hc).of_sameNodes (.invalidate _ o)
    · rwa [removeFrom_of_not_mem hc]
  | enter o slot c ha hl _ hout =>
    exact (hm.link hs.shaped ha hl).of_sameNodes (.invalidate _ o)
  | rename h name => exact hm.setName hs.shaped h name
  | locate h l => exact hm.modify_aside h (fun _ => rfl) (fun _ => rfl) fun _ _ _ => rfl
  | watch h =>
    have ht : Mirrored { s with
        watchers := s.watchers ++ [Watcher.mk s.nextWatcher h]
        nextWatcher := s.nextWatcher + 1 } P := hm.of_sameNodes (.of_cells rfl rfl)
    refine ht.modify_aside h (fun _ => rfl) (fun _ => rfl) fun n o slot => ?_
    simp
  | unwatch number =>
    unfold removeWatcher
    split
    · exact hm
    · have ht : Mirrored { s with watchers := s.watchers.filter (·.number != number) } P :=
        hm.of_sameNodes (.of_cells rfl rfl)
      refine ht.modify_aside _ (fun _ => rfl) (fun _ => rfl) fun n o slot => ?_
      rw [List.count_filter]
      simp
  | root h =>
    unfold addRoot
    split
    · exact hm
    · exact hm.of_sameNodes (.of_cells rfl rfl)
  | unroot h => exact hm.of_sameNodes (.of_cells rfl rfl)

end Store

end Semdoc
