import Semdoc.Proofs.Store.Access
import Semdoc.Proofs.Store.Slots

/-!
# Views of the store

The connections of a store as functions on handles: what a slot of a node holds, the roster of a slot
and the listeners of a node.  Each of them looks at one node only, so that it changes with that node;
the marks of validation show in none of them.
-/

namespace Semdoc

/-- A node without the mark that it has been found valid. -/
def Node.unmarked (n : Node) : Node := { n with validated := false }

namespace Store

/-- The nodes in a slot of a node. -/
def held (s : Store) (h : NodeHandle) (slot : Slot) : List NodeHandle :=
  ((s.get? h).map (·.held slot)).getD []

/-- The roster of a slot of a node, empty if there is none. -/
def rosterAt (s : Store) (h : NodeHandle) (slot : Slot) : Roster :=
  ((s.get? h).map (·.rosterAt slot)).getD {}

/-- Who is told about a new name of a node. -/
def listeners (s : Store) (h : NodeHandle) : List Listener :=
  ((s.get? h).map (·.listeners)).getD []

lemma held_of_get? {s : Store} {h : NodeHandle} {n : Node} (hn : s.get? h = some n) (slot : Slot) :
    s.held h slot = n.held slot := by
  simp [held, hn]

lemma rosterAt_of_get? {s : Store} {h : NodeHandle} {n : Node} (hn : s.get? h = some n)
    (slot : Slot) : s.rosterAt h slot = n.rosterAt slot := by
  simp [rosterAt, hn]

lemma parent?_eq (s : Store) (h : NodeHandle) : s.parent? h = (s.home? h).map (·.owner) := by
  unfold parent? home?
  cases s.get? h <;> rfl

lemma contains_of_mem_held {s : Store} {h c : NodeHandle} {slot : Slot} (hc : c ∈ s.held h slot) :
    s.contains h = true := by
  cases hn : s.get? h with
  | none => simp [held, hn] at hc
  | some n => exact contains_iff.2 ⟨n, hn⟩

lemma contains_of_home? {s : Store} {h : NodeHandle} {home : Home} (hh : s.home? h = some home) :
    s.contains h = true := by
  cases hn : s.get? h with
  | none => simp [home?, hn] at hh
  | some n => exact contains_iff.2 ⟨n, hn⟩

lemma holds_iff {s : Store} {o c : NodeHandle} {slot : Slot} :
    s.holds o slot c = true ↔ c ∈ s.held o slot := by
  unfold holds held
  cases s.get? o <;> simp

lemma held_of_not_isSingle (s : Store) (h : NodeHandle) {slot : Slot}
    (hs : slot.isSingle = false) : s.held h slot = (s.rosterAt h slot).items := by
  unfold held rosterAt
  cases s.get? h with
  | none => rfl
  | some n => simp [n.held_of_not_isSingle hs]

lemma listed_eq_held {s : Store} (h : NodeHandle) {slot : Slot} (hs : slot.isSingle = false) :
    s.listed h slot = s.held h slot := by
  unfold listed held
  cases s.get? h with
  | none => rfl
  | some n => rw [Option.map_some, Option.map_some, Node.held, hs, if_neg Bool.false_ne_true]

/-- A new node holds nothing, and all others hold what they held. -/
lemma Intact.held_create {s : Store} (hs : s.Intact) (name : String) (content : Content)
    (k : NodeHandle) (slot : Slot) : (s.create name content).2.held k slot = s.held k slot := by
  rw [held, hs.get?_create]
  split
  · next e =>
    rw [held, e, get?_nextHandle hs, Option.map_some, Option.getD_some, Node.held_new]
    rfl
  · rfl

/-! ## Changing a node -/

lemma home?_modify (s : Store) (h k : NodeHandle) (f : Node → Node) :
    (s.modify h f).home? k = if k = h then (s.get? h).bind fun n => (f n).home else s.home? k := by
  unfold home?
  rw [get?_modify]
  split
  · cases s.get? h <;> rfl
  · rfl

lemma held_modify (s : Store) (h k : NodeHandle) (f : Node → Node) (slot : Slot) :
    (s.modify h f).held k slot =
      if k = h then ((s.get? h).map fun n => (f n).held slot).getD [] else s.held k slot := by
  unfold held
  rw [get?_modify]
  split
  · cases s.get? h <;> rfl
  · rfl

lemma content?_modify (s : Store) (h k : NodeHandle) (f : Content → Content) :
    (s.modify h fun n => { n with content := f n.content }).content? k =
      if k = h then (s.content? h).map f else s.content? k := by
  unfold content?
  rw [get?_modify]
  split
  · cases s.get? h <;> rfl
  · rfl

lemma rosterAt_modify (s : Store) (h k : NodeHandle) (f : Node → Node) (slot : Slot) :
    (s.modify h f).rosterAt k slot =
      if k = h then ((s.get? h).map fun n => (f n).rosterAt slot).getD {}
      else s.rosterAt k slot := by
  unfold rosterAt
  rw [get?_modify]
  split
  · cases s.get? h <;> rfl
  · rfl

lemma listeners_modify (s : Store) (h k : NodeHandle) (f : Node → Node) :
    (s.modify h f).listeners k =
      if k = h then ((s.get? h).map fun n => (f n).listeners).getD [] else s.listeners k := by
  unfold listeners
  rw [get?_modify]
  split
  · cases s.get? h <;> rfl
  · rfl

/-- A question about one node does not notice a change that it does not look at. -/
lemma map_get?_modify {β : Type} (g : Node → β) (s : Store) (h k : NodeHandle) {f : Node → Node}
    (hf : ∀ n, g (f n) = g n) : ((s.modify h f).get? k).map g = (s.get? k).map g := by
  rw [get?_modify]
  split
  · next e =>
    subst e
    cases s.get? k <;> simp [hf]
  · rfl

lemma isValidated_modify (s : Store) (h k : NodeHandle) {f : Node → Node}
    (hf : ∀ n, (f n).validated = n.validated) :
    (s.modify h f).isValidated k = s.isValidated k := by
  rw [isValidated, map_get?_modify _ s h k hf, isValidated]

/-- A property of all nodes is kept if the changed node keeps it. -/
lemma forall_get?_modify {P : NodeHandle → Node → Prop} {s : Store} (h : NodeHandle)
    {f : Node → Node} (hs : ∀ k n, s.get? k = some n → P k n)
    (hf : ∀ n, s.get? h = some n → P h n → P h (f n)) :
    ∀ k n, (s.modify h f).get? k = some n → P k n := by
  intro k n hn
  rw [get?_modify] at hn
  split at hn
  · next e =>
    subst e
    obtain ⟨m, hm, rfl⟩ := Option.map_eq_some_iff.1 hn
    exact hf m hm (hs k m hm)
  · exact hs k n hn

/-! ## Places -/

/-- Two stores have given out the same handles. -/
structure SamePlaces (s s' : Store) : Prop where
  size : s'.cells.size = s.cells.size
  issued : ∀ k, s'.Issued k ↔ s.Issued k
  intact : s.Intact → s'.Intact

namespace SamePlaces

lemma refl (s : Store) : SamePlaces s s := ⟨rfl, fun _ => .rfl, id⟩

lemma trans {s s' s'' : Store} (h : SamePlaces s s') (h' : SamePlaces s' s'') :
    SamePlaces s s'' :=
  ⟨h'.size.trans h.size, fun k => (h'.issued k).trans (h.issued k), h'.intact ∘ h.intact⟩

lemma modify (s : Store) (h : NodeHandle) (f : Node → Node) : SamePlaces s (s.modify h f) :=
  ⟨size_cells_modify s h f, fun _ => issued_modify, fun hs => hs.modify h f⟩

/-- What is kept beside the places does not matter. -/
lemma of_cells {s s' : Store} (hc : s'.cells = s.cells) (hv : s'.vacant = s.vacant) :
    SamePlaces s s' := by
  refine ⟨by rw [hc], fun k => ?_, fun hs => ⟨?_, ?_⟩⟩
  · unfold Issued
    rw [hc]
  · rw [hv, hc]
    exact hs.vacant_empty
  · rw [hv]
    exact hs.vacant_nodup

end SamePlaces

/-! ## Marks -/

/-- Two stores have the same nodes but for the marks. -/
structure SameNodes (s s' : Store) : Prop extends SamePlaces s s' where
  get? : ∀ k, (s'.get? k).map Node.unmarked = (s.get? k).map Node.unmarked

namespace SameNodes

lemma refl (s : Store) : SameNodes s s := ⟨.refl s, fun _ => rfl⟩

lemma trans {s s' s'' : Store} (h : SameNodes s s') (h' : SameNodes s' s'') : SameNodes s s'' :=
  ⟨h.toSamePlaces.trans h'.toSamePlaces, fun k => (h'.get? k).trans (h.get? k)⟩

/-- Setting or clearing a mark. -/
lemma modify (s : Store) (h : NodeHandle) {f : Node → Node}
    (hf : ∀ n, (f n).unmarked = n.unmarked) : SameNodes s (s.modify h f) :=
  ⟨.modify s h f, fun k => map_get?_modify _ s h k hf⟩

lemma of_cells {s s' : Store} (hc : s'.cells = s.cells) (hv : s'.vacant = s.vacant) :
    SameNodes s s' :=
  ⟨.of_cells hc hv, fun _ => congrArg _ (get?_congr fun i _ => by rw [hc])⟩

/-- A question about one node that does not look at the mark. -/
lemma map_get? {s s' : Store} (h : SameNodes s s') {β : Type} (g : Node → β)
    (hg : ∀ n, g n.unmarked = g n) (k : NodeHandle) : (s'.get? k).map g = (s.get? k).map g := by
  have e := congrArg (Option.map g) (h.get? k)
  simpa [Option.map_map, Function.comp_def, hg] using e

lemma exists_get? {s s' : Store} (h : SameNodes s s') {k : NodeHandle} {n : Node}
    (hn : s'.get? k = some n) : ∃ m, s.get? k = some m ∧ m.unmarked = n.unmarked := by
  have e := h.get? k
  rw [hn, Option.map_some, eq_comm, Option.map_eq_some_iff] at e
  exact e

variable {s s' : Store} (h : SameNodes s s') (k : NodeHandle)
include h

lemma contains : s'.contains k = s.contains k := by
  have e := h.map_get? (fun _ => ()) (fun _ => rfl) k
  simpa [Store.contains] using congrArg Option.isSome e

lemma held (slot : Slot) : s'.held k slot = s.held k slot := by
  rw [Store.held, Store.held, h.map_get? _ (fun _ => rfl)]

lemma rosterAt (slot : Slot) : s'.rosterAt k slot = s.rosterAt k slot := by
  rw [Store.rosterAt, Store.rosterAt, h.map_get? _ (fun _ => rfl)]

lemma listeners : s'.listeners k = s.listeners k := by
  rw [Store.listeners, Store.listeners, h.map_get? _ (fun _ => rfl)]

lemma name : s'.name k = s.name k := by
  rw [Store.name, Store.name, h.map_get? _ (fun _ => rfl)]

lemma home? : s'.home? k = s.home? k := by
  have e := h.map_get? (·.home) (fun _ => rfl) k
  have hj : ∀ o : Option Node, o.bind (·.home) = (o.map (·.home)).join := by
    rintro (_ | n) <;> rfl
  rw [Store.home?, Store.home?, hj, hj, e]

lemma parent? : s'.parent? k = s.parent? k := by
  rw [parent?_eq, parent?_eq, h.home?]

end SameNodes

/-- Invalidating changes marks only. -/
lemma SameNodes.invalidate (s : Store) (h : NodeHandle) : SameNodes s (s.invalidate h) := by
  unfold Store.invalidate
  generalize s.chainUp s.bound (some h) = chain
  induction chain generalizing s with
  | nil => exact .refl s
  | cons a r ih =>
    have ha : SameNodes s (s.modify a fun n => { n with validated := false }) :=
      SameNodes.modify s a fun _ => rfl
    exact ha.trans (ih _)

/-- A mark stays unless its node is among those whose marks are cleared. -/
lemma isValidated_invalidate (s : Store) (h k : NodeHandle) :
    (s.invalidate h).isValidated k =
      (s.isValidated k && !(s.chainUp s.bound (some h)).contains k) := by
  unfold Store.invalidate
  generalize s.chainUp s.bound (some h) = chain
  induction chain generalizing s with
  | nil => simp
  | cons a r ih =>
    rw [List.foldl_cons, ih]
    have hm : (s.modify a fun n => { n with validated := false }).isValidated k
        = (s.isValidated k && !(k == a)) := by
      unfold isValidated
      rw [get?_modify]
      by_cases e : k = a
      · subst e
        cases s.get? k <;> simp
      · simp [e]
    rw [hm, List.contains_cons, Bool.not_or, Bool.and_assoc]

/-! ## Bounds -/

/-- Everything to which some node is connected. -/
def linked (s : Store) : List NodeHandle :=
  s.cells.toList.flatMap fun c => ((c.node.map (·.edges)).getD []).map (·.target)

lemma target_mem_linked {s : Store} {h : NodeHandle} {n : Node} (hn : s.get? h = some n)
    {e : Edge} (he : e ∈ n.edges) : e.target ∈ s.linked := by
  obtain ⟨i, _, hcell⟩ := get?_eq_some_iff.1 hn
  have hmem : (⟨h.generation, some n⟩ : Cell) ∈ s.cells.toList :=
    Array.mem_toList_iff.2 (Array.mem_of_getElem? hcell)
  exact List.mem_flatMap.2 ⟨_, hmem, List.mem_map_of_mem he⟩

lemma length_linked_lt (s : Store) : s.linked.length < s.extent := by
  have hfold : ∀ (cs : List Cell) (k : Nat),
      (cs.flatMap fun c => ((c.node.map (·.edges)).getD []).map (·.target)).length + k ≤
        cs.foldl (fun n c => n + 1 + ((c.node.map (·.edges.length)).getD 0)) k := by
    intro cs
    induction cs with
    | nil => exact fun k => Nat.le_of_eq (Nat.zero_add k)
    | cons c r ih =>
      intro k
      have hc : (((c.node.map (·.edges)).getD []).map (·.target)).length =
          (c.node.map (·.edges.length)).getD 0 := by
        cases c.node with
        | none => rfl
        | some n => exact List.length_map _
      have hr := ih (k + 1 + ((c.node.map (·.edges.length)).getD 0))
      rw [List.flatMap_cons, List.length_append, List.foldl_cons]
      omega
  have h := hfold s.cells.toList 1
  rw [linked, extent, ← Array.foldl_toList]
  omega

lemma listed_subset_linked (s : Store) (h : NodeHandle) (slot : Slot) :
    s.listed h slot ⊆ s.linked := by
  intro c hc
  unfold listed at hc
  cases hn : s.get? h with
  | none =>
    rw [hn] at hc
    cases hc
  | some n =>
    rw [hn, Option.map_some, Option.getD_some, Node.listed] at hc
    cases hr : n.roster? slot with
    | none =>
      rw [hr] at hc
      cases hc
    | some r =>
      rw [hr] at hc
      have he : (⟨c, slot.isComposition⟩ : Edge) ∈ n.listEdges :=
        List.mem_flatMap.2 ⟨_, Node.mem_rosters_of_roster? hr, List.mem_map_of_mem hc⟩
      exact target_mem_linked hn (List.mem_append_right _ he)

lemma references_subset_linked {s : Store} {h : NodeHandle} {c : Content}
    (hc : s.content? h = some c) : c.references ⊆ s.linked := by
  intro t ht
  obtain ⟨n, hn, rfl⟩ := Option.map_eq_some_iff.1 hc
  have he : (⟨t, false⟩ : Edge) ∈ n.referenceEdges := List.mem_map_of_mem ht
  exact target_mem_linked hn (List.mem_append_left _ (List.mem_append_right _ he))

end Store

end Semdoc
