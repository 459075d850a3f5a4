import Mathlib.Data.List.Infix
import Mathlib.Data.List.ProdSigma
import Semdoc.Graph.Resolve
import Semdoc.Proofs.Session.Naming
import Semdoc.Proofs.Store.Collection
import Semdoc.Proofs.Store.Kinds

/-!
# Resolving names in a session

What a path leads to is said here by relations between nodes, without a search.  The search waits at
a stop for the next name only if the names before it have led there, and it comes to every such stop,
since it ends by itself and leaves no stop out.  As it comes to no stop twice it finds no node twice,
however often and in whatever circles the nodes refer to each other.

The path of a node, which is read off on the way up, leads down to it again if no unnamed node is left
out on the way and no other node hides one of the named ones.
-/

namespace Semdoc

open Relation

/-- The nodes that are referred to are those of the content and those in the other slots. -/
lemma Node.Shaped.mem_referred_iff {n : Node} (hn : n.Shaped) {t : NodeHandle} :
    t ∈ n.referred ↔ t ∈ n.content.references ∨
      ∃ slot : Slot, slot.isComposition = false ∧ t ∈ n.held slot := by
  have hmem : t ∈ n.referred ↔ t ∈ n.content.references ∨
      ∃ e ∈ n.rosters, e.1.isComposition = false ∧ t ∈ e.2.items := by
    simp [referred, edges, singleEdge, referenceEdges, listEdges]
    aesop
  rw [hmem]
  refine or_congr_right ⟨?_, ?_⟩
  · rintro ⟨⟨slot, r⟩, he, hslot, ht⟩
    refine ⟨slot, hslot, ?_⟩
    rwa [held_of_not_isSingle n (hn.not_isSingle (List.mem_map_of_mem he)), hn.rosterAt_of_mem he]
  · rintro ⟨slot, hslot, ht⟩
    have hs : slot.isSingle = false := by
      by_contra hs
      have hcomp := Slot.isComposition_of_isSingle (Bool.not_eq_false _ ▸ hs)
      rw [hslot] at hcomp
      cases hcomp
    rw [held_of_not_isSingle n hs] at ht
    exact ⟨_, mem_rosters_of_mem_items ht, hslot, ht⟩

namespace Store

/-! ## Where a path leads -/

/-- A node refers to another one without owning it. -/
def Refers (s : Store) (h t : NodeHandle) : Prop :=
  (∃ c, s.content? h = some c ∧ t ∈ c.references) ∨
    ∃ slot : Slot, slot.isComposition = false ∧ t ∈ s.held h slot

/-- A node is the root or one that the root refers to, or is owned by one of these through any number
of steps. -/
def Overlooks (s : Store) (root h : NodeHandle) : Prop :=
  ReflTransGen s.Owns root h ∨ ∃ t, s.Refers root t ∧ ReflTransGen s.Owns t h

/-- A child of a node carries a name; in a slot for lists it is the one that is visible under it. -/
def Shows (s : Store) (p : NodeHandle) (name : String) (c : NodeHandle) : Prop :=
  ∃ slot : Slot, slot.isComposition = true ∧ c ∈ s.held p slot ∧ s.carries name c = true ∧
    (slot.isSingle = true ∨ s.childNamed? p slot name = some c)

/-- A path leads to a node, as seen from a root. -/
inductive Leads (s : Store) (root : NodeHandle) : List String → NodeHandle → Prop
  | first {name : String} {h : NodeHandle} (hh : s.Overlooks root h)
      (hn : s.carries name h = true) : Leads s root [name] h
  | next {path : List String} {name : String} {p c : NodeHandle} (hp : Leads s root path p)
      (hc : s.Shows p name c) : Leads s root (path ++ [name]) c

variable {s : Store} {root : NodeHandle} {path : List String}

lemma Leads.ne_nil {h : NodeHandle} (hh : s.Leads root path h) : path ≠ [] := by
  cases hh with
  | first => exact List.cons_ne_nil _ _
  | next => simp

lemma carries_iff {name : String} {h : NodeHandle} :
    s.carries name h = true ↔ name ≠ "" ∧ s.name h = name := by
  simp [carries]

/-- Only nodes that are there carry names. -/
lemma contains_of_carries {name : String} {h : NodeHandle} (hh : s.carries name h = true) :
    s.contains h = true := by
  obtain ⟨hne, rfl⟩ := carries_iff.1 hh
  by_contra hc
  rw [contains, Bool.not_eq_true, Option.isSome_eq_false_iff, Option.isNone_iff_eq_none] at hc
  rw [name, hc] at hne
  exact hne rfl

lemma contains_of_owns {p c : NodeHandle} (h : s.Owns p c) : s.contains p = true := by
  obtain ⟨slot, _, hc⟩ := h
  exact contains_of_mem_held hc

lemma contains_of_refers {h t : NodeHandle} (ht : s.Refers h t) : s.contains h = true := by
  obtain ⟨c, hc, _⟩ | ⟨slot, _, ht⟩ := ht
  · rw [content?, Option.map_eq_some_iff] at hc
    obtain ⟨n, hn, _⟩ := hc
    exact contains_iff.2 ⟨n, hn⟩
  · exact contains_of_mem_held ht

lemma Overlooks.contains {h : NodeHandle} (ho : s.Overlooks root h)
    (hh : s.contains h = true) : s.contains root = true := by
  obtain ho | ⟨t, ht, _⟩ := ho
  · obtain rfl | ⟨c, hc, _⟩ := ReflTransGen.cases_head ho
    · exact hh
    · exact contains_of_owns hc
  · exact contains_of_refers ht

/-- What is owned by a node in sight of the root is in sight as well. -/
lemma Overlooks.tail {h c : NodeHandle} (ho : s.Overlooks root h) (hc : s.Owns h c) :
    s.Overlooks root c := by
  obtain ho | ⟨t, ht, ho⟩ := ho
  · exact .inl (ho.tail hc)
  · exact .inr ⟨t, ht, ho.tail hc⟩

lemma Leads.contains {h : NodeHandle} (hh : s.Leads root path h) : s.contains root = true := by
  induction hh with
  | first hh hn => exact hh.contains (contains_of_carries hn)
  | next _ _ ih => exact ih

/-! ## Steps of the search -/

lemma Shaped.mem_referred_iff (hs : s.Shaped) {h t : NodeHandle} :
    t ∈ s.referred h ↔ s.Refers h t := by
  unfold referred Refers content?
  cases hn : s.get? h with
  | none => simp [held, hn]
  | some n =>
    simp only [held_of_get? hn, Option.map_some, Option.getD_some, Option.some.injEq,
      exists_eq_left']
    exact (hs h n hn).mem_referred_iff

lemma Shaped.mem_visibleChildren_iff (hs : s.Shaped) {p c : NodeHandle} {name : String} :
    c ∈ s.visibleChildren p name ↔ ∃ slot : Slot, slot.isComposition = true ∧
      (s.childNamed? p slot name = some c ∨
        slot.isSingle = true ∧ c ∈ s.held p slot ∧ s.name c = name) := by
  unfold visibleChildren childNamed? roster?
  cases hn : s.get? p with
  | none => simp [held, hn]
  | some n =>
    have hsh := hs p n hn
    simp only [held_of_get? hn, Option.bind_some, List.mem_append, List.mem_filterMap,
      List.mem_filter, Option.mem_toList, beq_iff_eq]
    constructor
    · rintro (⟨⟨slot, r⟩, hr, hc⟩ | ⟨hc, hname⟩)
      · obtain ⟨hslot, hc⟩ := Option.ite_none_right_eq_some.1 hc
        obtain ⟨r', hr'⟩ := Option.isSome_iff_exists.1
          (Node.roster?_isSome_iff.2 (List.mem_map_of_mem hr))
        rw [← hsh.rosterAt_of_mem hr, Node.rosterAt_of_roster? hr'] at hc
        refine ⟨slot, hslot, .inl ?_⟩
        rwa [hr']
      · obtain ⟨slot, hslot⟩ := Option.isSome_iff_exists.1 (hsh.single_slot (by rw [hc]; rfl))
        have hsingle := Content.isSingle_of_singleSlot? hslot
        refine ⟨slot, Slot.isComposition_of_isSingle hsingle, .inr ⟨hsingle, ?_, hname⟩⟩
        simp [Node.held, hsingle, hslot, hc]
    · rintro ⟨slot, hslot, hc | ⟨hsingle, hc, hname⟩⟩
      · obtain ⟨r, hr, hc⟩ := Option.bind_eq_some_iff.1 hc
        exact .inl ⟨_, Node.mem_rosters_of_roster? hr, by rw [if_pos hslot, hc]⟩
      · refine .inr ⟨?_, hname⟩
        simp only [Node.held, hsingle, if_true] at hc
        split at hc
        · simpa using hc
        · cases hc

/-- What the search goes on to from a node is looked up in the slots.  It is a child of the node since the
slots are mirrored. -/
lemma Shaped.shows_iff (hs : s.Shaped) (hm : s.Mirrored fun slot => slot.isComposition = true)
    {p c : NodeHandle} {name : String} :
    s.Shows p name c ↔ c ∈ s.visibleChildren p name ∧ s.carries name c = true := by
  rw [hs.mem_visibleChildren_iff]
  constructor
  · rintro ⟨slot, hslot, hc, hn, hsingle | hv⟩
    · exact ⟨⟨slot, hslot, .inr ⟨hsingle, hc, (carries_iff.1 hn).2⟩⟩, hn⟩
    · exact ⟨⟨slot, hslot, .inl hv⟩, hn⟩
  · rintro ⟨⟨slot, hslot, hv | ⟨hsingle, hc, _⟩⟩, hn⟩
    · refine ⟨slot, hslot, (hs.mem_held_of_mem_items ?_).2, hn, .inr hv⟩
      obtain ⟨r, hr, hv⟩ := Option.bind_eq_some_iff.1 hv
      have hroster : s.rosterAt p slot = r := by
        obtain ⟨n, hget, hr⟩ := Option.bind_eq_some_iff.1 hr
        rw [rosterAt_of_get? hget, Node.rosterAt_of_roster? hr]
      rw [hroster]
      exact (hroster ▸ hm.mirrors p slot hslot).of_resolve? hv |>.1
    · exact ⟨slot, hslot, hc, hn, .inl hsingle⟩

lemma mem_descend_iff {h : NodeHandle} {names : List String} {stop : Stop} :
    stop ∈ s.descend (h, names) ↔ ∃ name next rest c, names = name :: next :: rest ∧
      stop = (c, next :: rest) ∧ s.carries name h = true ∧ c ∈ s.visibleChildren h next := by
  match names with
  | [] => simp [descend]
  | [name] => simp [descend]
  | name :: next :: rest =>
    rw [descend]
    split
    · next hn =>
      rw [List.mem_map]
      constructor
      · rintro ⟨c, hc, rfl⟩
        exact ⟨name, next, rest, c, rfl, rfl, hn, hc⟩
      · rintro ⟨_, _, _, c, e, rfl, _, hc⟩
        cases e
        exact ⟨c, hc, rfl⟩
    · next hn =>
      constructor
      · intro hc
        cases hc
      · rintro ⟨_, _, _, _, e, _, hn', _⟩
        cases e
        exact absurd hn' hn

lemma Shaped.mem_widen_iff (hs : s.Shaped) {h c : NodeHandle} :
    c ∈ s.widen root h ↔ s.Owns h c ∨ h = root ∧ s.Refers root c := by
  rw [widen, List.mem_append, hs.mem_owned_iff]
  refine or_congr_right ?_
  split
  · next e => rw [hs.mem_referred_iff, and_iff_right e]
  · next e => simp [e]

lemma mem_onward_iff {stop stop' : Stop} : stop' ∈ s.onward root path stop ↔
    s.contains stop'.1 = true ∧ (stop' ∈ s.descend stop ∨
      stop.2 = path ∧ ∃ c ∈ s.widen root stop.1, (c, path) = stop') := by
  rw [onward, List.mem_filter, List.mem_append, and_comm]
  refine and_congr_right fun _ => or_congr_right ?_
  split
  · next e => rw [List.mem_map, and_iff_right e]
  · next e => simp [e]

/-- The stops at which the search can be: the nodes with what may be left of the path. -/
def stops (s : Store) (path : List String) : List Stop := s.handles ×ˢ path.tails

lemma mem_stops_iff {stop : Stop} :
    stop ∈ s.stops path ↔ s.contains stop.1 = true ∧ stop.2 <:+ path := by
  obtain ⟨h, names⟩ := stop
  exact List.pair_mem_product.trans (and_congr mem_handles_iff (List.mem_tails _ _))

lemma length_stops_lt :
    (s.stops path).length < ([] : List Stop).length + s.stopBound path := by
  rw [stops, List.length_product, List.length_tails, stopBound, size, List.length_nil, Nat.zero_add]
  exact Nat.lt_succ_self _

lemma onward_subset_stops (root : NodeHandle) (stop : Stop) (h : stop ∈ s.stops path) :
    s.onward root path stop ⊆ s.stops path := by
  obtain ⟨h, names⟩ := stop
  have hsuffix : names <:+ path := (mem_stops_iff.1 h).2
  intro stop' h'
  obtain ⟨hc, h'⟩ := mem_onward_iff.1 h'
  rw [mem_stops_iff]
  refine ⟨hc, ?_⟩
  obtain h' | ⟨_, c, _, rfl⟩ := h'
  · obtain ⟨name, next, rest, c, rfl, rfl, _⟩ := mem_descend_iff.1 h'
    exact (List.suffix_cons name _).trans hsuffix
  · exact List.suffix_rfl

/-! ## What the search waits for -/

/-- The names of a stop are the whole path and its node is in sight of the root, or the names before
them lead to a node of which that of the stop is a child visible under the first of them. -/
def Awaits (s : Store) (root : NodeHandle) (path : List String) (stop : Stop) : Prop :=
  stop.2 = path ∧ s.Overlooks root stop.1 ∨
    ∃ front p name rest, stop.2 = name :: rest ∧ path = front ++ name :: rest ∧
      s.Leads root front p ∧ stop.1 ∈ s.visibleChildren p name

/-- Only in sight of the root the whole path is awaited. -/
lemma Awaits.overlooks {h : NodeHandle} (hs : s.Awaits root path (h, path)) :
    s.Overlooks root h := by
  obtain ⟨_, ho⟩ | ⟨front, p, name, rest, e, e', hp, _⟩ := hs
  · exact ho
  · refine absurd ?_ hp.ne_nil
    rw [← show path = name :: rest from e] at e'
    exact List.self_eq_append_left.1 e'

/-! ## What the search comes to -/

/-- The stops at which the search has been in the end. -/
def visited (s : Store) (root : NodeHandle) (path : List String) : List Stop :=
  Walk.depthFirst (s.onward root path) (s.stopBound path) [(root, path)] []

lemma root_subset_stops (path : List String) (hroot : s.contains root = true) :
    [(root, path)] ⊆ s.stops path := by
  intro stop hstop
  rw [List.mem_singleton.1 hstop]
  exact mem_stops_iff.2 ⟨hroot, List.suffix_rfl⟩

lemma visited_closed (path : List String) (hroot : s.contains root = true) :
    (root, path) ∈ s.visited root path ∧
      ∀ stop ∈ s.visited root path, s.onward root path stop ⊆ s.visited root path := by
  have hclosed := Walk.depthFirst_closed (onward_subset_stops root) (root_subset_stops path hroot)
    (List.nil_subset _) List.nodup_nil length_stops_lt (by simp)
  exact ⟨hclosed.1 (List.mem_singleton_self _), hclosed.2.2⟩

section Search

variable (hs : s.Sound) (hm : s.Mirrored fun slot => slot.isComposition = true)
include hs hm

/-- Where the name is found, the path leads that far. -/
lemma Awaits.leads {h : NodeHandle} {name : String} {rest : List String}
    (ha : s.Awaits root path (h, name :: rest)) (hn : s.carries name h = true) :
    ∃ front, path = front ++ name :: rest ∧ s.Leads root (front ++ [name]) h := by
  obtain ⟨rfl, ho⟩ | ⟨front, p, _, _, e, rfl, hp, hc⟩ := ha
  · exact ⟨[], rfl, .first ho hn⟩
  · cases e
    exact ⟨front, rfl, .next hp ((hs.shaped.shows_iff hm).2 ⟨hc, hn⟩)⟩

lemma Awaits.onward {stop : Stop} (ha : s.Awaits root path stop) (stop' : Stop)
    (h' : stop' ∈ s.onward root path stop) : s.Awaits root path stop' := by
  obtain ⟨h, names⟩ := stop
  obtain ⟨_, h' | ⟨e, c, hc, rfl⟩⟩ := mem_onward_iff.1 h'
  · -- a later name: the one before it has been found
    obtain ⟨name, next, rest, c, rfl, rfl, hn, hc⟩ := mem_descend_iff.1 h'
    obtain ⟨front, rfl, hl⟩ := ha.leads hs hm hn
    refine .inr ⟨front ++ [name], h, next, rest, rfl, ?_, hl, hc⟩
    rw [List.append_assoc, List.singleton_append]
  · -- the first name: it is looked for further away from the root
    cases e
    obtain hc | ⟨rfl, hc⟩ := hs.shaped.mem_widen_iff.1 hc
    · exact .inl ⟨rfl, ha.overlooks.tail hc⟩
    · exact .inl ⟨rfl, .inr ⟨c, hc, .refl⟩⟩

/-- The search waits only for what the path asks for. -/
lemma awaits_of_mem_visited :
    ∀ stop ∈ s.visited root path, s.Awaits root path stop := by
  refine Walk.forall_mem_depthFirst (fun _ h => h.onward hs hm) ?_ (List.forall_mem_nil _)
  intro stop hstop
  rw [List.mem_singleton.1 hstop]
  exact .inl ⟨rfl, .inl .refl⟩

omit hm in
/-- The search looks for the first name at all nodes in sight of the root. -/
lemma mem_visited_of_overlooks {h : NodeHandle} (ho : s.Overlooks root h)
    (hh : s.contains h = true) : (h, path) ∈ s.visited root path := by
  obtain ⟨hroot, hclosed⟩ := visited_closed path (ho.contains hh)
  have hstep : ∀ p c, (p, path) ∈ s.visited root path → s.contains c = true →
      s.Owns p c ∨ p = root ∧ s.Refers root c → (c, path) ∈ s.visited root path := by
    intro p c hp hc hw
    exact hclosed _ hp (mem_onward_iff.2 ⟨hc, .inr ⟨rfl, c, hs.shaped.mem_widen_iff.2 hw, rfl⟩⟩)
  have howned : ∀ a, (a, path) ∈ s.visited root path → ReflTransGen s.Owns a h →
      (h, path) ∈ s.visited root path := by
    intro a ha hah
    clear hh ho
    induction hah with
    | refl => exact ha
    | tail _ hc ih => exact hstep _ _ ih (hs.contains_of_owns hc) (.inl hc)
  obtain ho | ⟨t, ht, ho⟩ := ho
  · exact howned root hroot ho
  · -- a node that has been dropped owns nothing
    have hlive : s.contains t = true := by
      obtain rfl | ⟨c, hc, _⟩ := ReflTransGen.cases_head ho
      · exact hh
      · exact contains_of_owns hc
    exact howned t (hstep _ _ hroot hlive (.inr ⟨rfl, ht⟩)) ho

/-- The search finds the last name of all that leads to a node. -/
lemma mem_visited_of_leads {front : List String} {h : NodeHandle} (hh : s.Leads root front h) :
    ∀ rest, path = front ++ rest →
      ∃ name, (h, name :: rest) ∈ s.visited root path ∧ s.carries name h = true := by
  induction hh with
  | @first name h ho hn =>
    rintro rest rfl
    exact ⟨name, mem_visited_of_overlooks hs ho (contains_of_carries hn), hn⟩
  | @next front name p c hp hc ih =>
    intro rest e
    rw [List.append_assoc, List.singleton_append] at e
    obtain ⟨before, hb, hbn⟩ := ih _ e
    obtain ⟨hv, hn⟩ := (hs.shaped.shows_iff hm).1 hc
    have hd : (c, name :: rest) ∈ s.descend (p, before :: name :: rest) :=
      mem_descend_iff.2 ⟨before, name, rest, c, rfl, rfl, hbn, hv⟩
    have hclosed := (visited_closed path hp.contains).2
    exact ⟨name, hclosed _ hb (mem_onward_iff.2 ⟨contains_of_carries hn, .inl hd⟩), hn⟩

end Search

/-! ## The results -/

lemma isFound_iff {type : TypeTag} {stop : Stop} : s.isFound type stop = true ↔
    ∃ name, stop.2 = [name] ∧ s.carries name stop.1 = true ∧ s.isA stop.1 type = true := by
  match stop with
  | (_, []) => simp [isFound]
  | (_, [name]) => simp [isFound]
  | (_, _ :: _ :: _) => simp [isFound]

lemma resolve_of_contains (hpath : path ≠ []) (hroot : s.contains root = true) (type : TypeTag) :
    s.resolve root path type = ((s.visited root path).filter (s.isFound type)).map (·.1) := by
  rw [resolve, resolveIn, if_neg (by simp [hpath, hroot]), visited]

lemma resolve_of_not_contains (hroot : s.contains root = false) (type : TypeTag) :
    s.resolve root path type = [] := by
  rw [resolve, resolveIn, if_pos (by simp [hroot])]

lemma Sound.mem_resolve_iff (hs : s.Sound)
    (hm : s.Mirrored fun slot => slot.isComposition = true) (hpath : path ≠ []) {type : TypeTag}
    {h : NodeHandle} :
    h ∈ s.resolve root path type ↔ s.Leads root path h ∧ s.isA h type = true := by
  cases hroot : s.contains root with
  | false =>
    rw [resolve_of_not_contains hroot]
    constructor
    · intro hh
      cases hh
    · rintro ⟨hl, _⟩
      rw [hl.contains] at hroot
      cases hroot
  | true =>
    rw [resolve_of_contains hpath hroot, List.mem_map]
    constructor
    · rintro ⟨⟨h, names⟩, hv, rfl⟩
      obtain ⟨hv, hf⟩ := List.mem_filter.1 hv
      obtain ⟨name, rfl, hn, htype⟩ := isFound_iff.1 hf
      obtain ⟨front, rfl, hl⟩ := (awaits_of_mem_visited hs hm _ hv).leads hs hm hn
      exact ⟨hl, htype⟩
    · rintro ⟨hl, htype⟩
      obtain ⟨name, hv, hn⟩ := mem_visited_of_leads hs hm hl [] (List.append_nil _).symm
      exact ⟨_, List.mem_filter.2 ⟨hv, isFound_iff.2 ⟨name, rfl, hn, htype⟩⟩, rfl⟩

lemma isA_of_mem_resolve {type : TypeTag} {h : NodeHandle}
    (hh : h ∈ s.resolve root path type) : s.isA h type = true := by
  rw [resolve, resolveIn] at hh
  split at hh
  · cases hh
  · obtain ⟨stop, hstop, rfl⟩ := List.mem_map.1 hh
    obtain ⟨_, _, _, htype⟩ := isFound_iff.1 (List.mem_filter.1 hstop).2
    exact htype

/-- A node carries one name only, so that it is found once. -/
lemma nodup_resolve (type : TypeTag) : (s.resolve root path type).Nodup := by
  rw [resolve, resolveIn]
  split
  · exact List.nodup_nil
  · refine List.Nodup.map_on ?_ ((Walk.nodup_depthFirst List.nodup_nil).filter _)
    rintro ⟨h, _⟩ hx ⟨_, _⟩ hy rfl
    obtain ⟨x, rfl, hx, _⟩ := isFound_iff.1 (List.mem_filter.1 hx).2
    obtain ⟨y, rfl, hy, _⟩ := isFound_iff.1 (List.mem_filter.1 hy).2
    rw [← (carries_iff.1 hx).2, ← (carries_iff.1 hy).2]

/-- The rounds never run out. -/
lemma resolveIn_add (more : Nat) (type : TypeTag) :
    s.resolveIn (s.stopBound path + more) root path type = s.resolve root path type := by
  rw [resolve, resolveIn, resolveIn]
  split
  · rfl
  · next hc =>
    have hroot : s.contains root = true := by
      rw [Bool.or_eq_true, not_or] at hc
      simpa using hc.2
    rw [Walk.depthFirst_of_le (onward_subset_stops root) (root_subset_stops path hroot)
      (List.nil_subset _) List.nodup_nil length_stops_lt (Nat.le_add_right _ _)]

/-- Resolving a path comes to an end by itself, also where nodes refer to each other in circles: more
rounds change nothing.  It finds the nodes of the type to which the path leads, and each of them once. -/
theorem resolve_follows_leads (steps : List SessionStep) (root : NodeHandle) (name : String)
    (rest : List String) (type : TypeTag) :
    (∀ more, (after steps).resolveIn ((after steps).stopBound (name :: rest) + more) root
      (name :: rest) type = (after steps).resolve root (name :: rest) type) ∧
    ((after steps).resolve root (name :: rest) type).Nodup ∧
    ∀ h, h ∈ (after steps).resolve root (name :: rest) type ↔
      (after steps).Leads root (name :: rest) h ∧ (after steps).isA h type = true :=
  ⟨fun more => resolveIn_add more type, nodup_resolve type,
    fun _ => (sound_after steps).mem_resolve_iff (mirrored_isComposition_after steps)
      (List.cons_ne_nil _ _)⟩

/-- In two ontologies that depend on each other a class is found once. -/
example : (after [.operate (.createOntology "o"), .operate (.createOntology "p"),
    .operate (.addOntologyDependency ⟨1, 1⟩ ⟨2, 1⟩),
    .operate (.addOntologyDependency ⟨2, 1⟩ ⟨1, 1⟩),
    .operate (.createClass ⟨2, 1⟩ "c" .any none false false)]).resolve ⟨1, 1⟩ ["p", "c"]
      .structuredClass = [⟨3, 1⟩] := by
  decide

/-! ## Paths of nodes -/

/-- The named ones among a node and its owners, the nearest first. -/
def namedLine (s : Store) (n : NodeHandle) : List NodeHandle :=
  (n :: s.ancestors n).filter fun k => s.name k != ""

/-- A node is owned through a slot for a single one, or it is the one that is visible under its name in
the slot where it is owned. -/
def VisibleAtHome (s : Store) (c : NodeHandle) : Prop :=
  ∃ home, s.home? c = some home ∧
    (home.slot.isSingle = true ∨ s.childNamed? home.owner home.slot (s.name c) = some c)

lemma path_eq (n : NodeHandle) : s.path n = ((s.namedLine n).map s.name).reverse := by
  rw [Store.path, namedLine, List.filter_map]
  rfl

lemma contains_of_name_ne {h : NodeHandle} (hh : s.name h ≠ "") : s.contains h = true :=
  contains_of_carries (carries_iff.2 ⟨hh, rfl⟩)

/-- A named node that is visible where it is owned is shown by its owner under its name. -/
lemma Sound.shows_of_visibleAtHome (hs : s.Sound) {p c : NodeHandle} (hp : s.parent? c = some p)
    (hlive : s.contains p = true) (hc : s.name c ≠ "") (hv : s.VisibleAtHome c) :
    s.Shows p (s.name c) c := by
  obtain ⟨home, hhome, hv⟩ := hv
  obtain rfl : home.owner = p := by
    rw [parent?_eq, hhome] at hp
    exact Option.some.inj hp
  obtain ⟨hslot, hm⟩ := hs.held_of_home hhome hlive
  exact ⟨home.slot, hslot, hm, carries_iff.2 ⟨hc, rfl⟩, hv⟩

/-- Down an unbroken line of named nodes, each visible where it is owned, the names lead to the lowest
from whatever owns the topmost. -/
lemma Sound.leads_of_line (hs : s.Sound) {top n : NodeHandle} (hroot : ReflTransGen s.Owns root top)
    {line : List NodeHandle} (htop : top ∈ (n :: line).getLast?)
    (hline : (n :: line).IsChain fun c p => s.parent? c = some p)
    (hnamed : ∀ c ∈ n :: line, s.name c ≠ "")
    (hvisible : ∀ c ∈ (n :: line).dropLast, s.VisibleAtHome c) :
    s.Leads root ((n :: line).map s.name).reverse n := by
  induction line generalizing n with
  | nil =>
    obtain rfl := Option.mem_some_iff.1 htop
    exact .first (.inl hroot) (carries_iff.2 ⟨hnamed n List.mem_cons_self, rfl⟩)
  | cons p line ih =>
    obtain ⟨hparent, hline⟩ := List.isChain_cons_cons.1 hline
    obtain ⟨hn, hnamed⟩ := List.forall_mem_cons.1 hnamed
    obtain ⟨hv, hvisible⟩ := List.forall_mem_cons.1 hvisible
    have hlive := contains_of_name_ne (hnamed p List.mem_cons_self)
    rw [List.getLast?_cons_cons] at htop
    rw [List.map_cons, List.reverse_cons]
    exact .next (ih htop hline hnamed hvisible) (hs.shows_of_visibleAtHome hparent hlive hn hv)

/-- The path of a named node leads to it from the topmost named one of its owners and from whatever owns
that, if the named ones are an unbroken line and all of them but the topmost are visible where they
are owned. -/
theorem mem_resolve_path (steps : List SessionStep) (n top root : NodeHandle)
    (hn : (after steps).name n ≠ "") (htop : top ∈ ((after steps).namedLine n).getLast?)
    (hline : ((after steps).namedLine n).IsChain fun c p => (after steps).parent? c = some p)
    (hvisible : ∀ c ∈ ((after steps).namedLine n).dropLast, (after steps).VisibleAtHome c)
    (hroot : ReflTransGen (after steps).Owns root top) :
    n ∈ (after steps).resolve root ((after steps).path n) ((after steps).tag n) := by
  have hs := sound_after steps
  have hm := mirrored_isComposition_after steps
  generalize after steps = s at *
  have hnamed : ∀ c ∈ s.namedLine n, s.name c ≠ "" := by
    intro c hc
    simpa using (List.mem_filter.1 hc).2
  obtain ⟨line, hcons⟩ : ∃ line, s.namedLine n = n :: line :=
    ⟨_, List.filter_cons_of_pos (by simpa using hn)⟩
  rw [path_eq, hcons]
  rw [hcons] at htop hline hvisible hnamed
  have hlead := hs.leads_of_line hroot htop hline hnamed hvisible
  refine (hs.mem_resolve_iff hm hlead.ne_nil).2 ⟨hlead, ?_⟩
  obtain ⟨m, hget⟩ := contains_iff.1 (contains_of_name_ne hn)
  rw [isA, tag, hget, Option.map_some, Option.map_some, Option.getD_some, Option.getD_some]
  exact TypeTag.isA_self _

/-- A session that puts an entity into the root of a document in a project without name. -/
def addressedSession : List SessionStep :=
  [.operate .createProject, .operate (.createProjectOntology ⟨6, 1⟩ "o"),
    .operate (.createClass ⟨7, 1⟩ "c" .any none false true),
    .operate (.createField ⟨8, 1⟩ .tree "" true none), .operate (.addChildClass ⟨10, 1⟩ ⟨8, 1⟩),
    .operate (.createProjectDocument ⟨6, 1⟩ "d"), .operate (.createRoot ⟨11, 1⟩ ⟨8, 1⟩ none "r"),
    .operate (.createChild ⟨12, 1⟩ ⟨8, 1⟩ none "" "k")]

/-- From the project the path leads through the document and its root, which is a single one, to the
entity. -/
theorem mem_resolve_path_addressedSession :
    (after addressedSession).name ⟨13, 1⟩ ≠ "" ∧
      (after addressedSession).namedLine ⟨13, 1⟩ = [⟨13, 1⟩, ⟨12, 1⟩, ⟨11, 1⟩] ∧
      (∀ c ∈ [⟨13, 1⟩, ⟨12, 1⟩], (after addressedSession).VisibleAtHome c) ∧
      ReflTransGen (after addressedSession).Owns ⟨6, 1⟩ ⟨11, 1⟩ ∧
      (after addressedSession).path ⟨13, 1⟩ = ["d", "r", "k"] ∧
      ⟨13, 1⟩ ∈ (after addressedSession).resolve ⟨6, 1⟩ ["d", "r", "k"] .structuredEntity := by
  have hn : (after addressedSession).name ⟨13, 1⟩ ≠ "" := by decide +kernel
  have hnames : (after addressedSession).namedLine ⟨13, 1⟩ = [⟨13, 1⟩, ⟨12, 1⟩, ⟨11, 1⟩] := by
    decide +kernel
  have hpath : (after addressedSession).path ⟨13, 1⟩ = ["d", "r", "k"] := by decide +kernel
  have htag : (after addressedSession).tag ⟨13, 1⟩ = .structuredEntity := by decide +kernel
  have hvisible : ∀ c ∈ [⟨13, 1⟩, ⟨12, 1⟩], (after addressedSession).VisibleAtHome c := by
    refine List.forall_mem_cons.2 ⟨?_, List.forall_mem_singleton.2 ?_⟩
    · exact ⟨⟨⟨12, 1⟩, .entityField 0⟩, by decide +kernel, .inr (by decide +kernel)⟩
    · exact ⟨⟨⟨11, 1⟩, .documentRoot⟩, by decide +kernel, .inl rfl⟩
  have hroot : ReflTransGen (after addressedSession).Owns ⟨6, 1⟩ ⟨11, 1⟩ :=
    .single ⟨.projectDocuments, rfl, by decide +kernel⟩
  have hmem := mem_resolve_path addressedSession ⟨13, 1⟩ ⟨11, 1⟩ ⟨6, 1⟩ hn
    (by rw [hnames]; rfl)
    (by rw [hnames]; exact .cons_cons (by decide +kernel) (.cons_cons (by decide +kernel) (.singleton _)))
    (by rw [hnames]; exact hvisible) hroot
  rw [hpath, htag] at hmem
  exact ⟨hn, hnames, hvisible, hroot, hpath, hmem⟩

end Store

end Semdoc
