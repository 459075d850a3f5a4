import Semdoc.Ontology.Path
import Semdoc.Proofs.Ontology.Routes
import Semdoc.Proofs.Session.Operation

/-!
# The search for shortest paths

A round of the search goes through every transparent class that is met for the first time, behind
one of the fields from which it is met.  Routes to a field that pass through a class at the same
distance from the start end alike, whichever of them is kept, and a route that comes back to a class
met before is no part of a shortest path.  So the first round that meets the target has shortest
paths only, and one for every way in which a shortest path may end.
-/

namespace Semdoc.Store

variable {s : Store} {start target : NodeHandle} {n : Nat} {entered : List NodeHandle}
  {frontier : List Reached}

/-! ## One round -/

/-- The paths to the target that end at the frontier. -/
def foundAt (s : Store) (target : NodeHandle) (frontier : List Reached) : List (List NodeHandle) :=
  (frontier.filter fun r => (s.permittedChildren r.field).contains target).map (·.path)

/-- The transparent classes behind fields that do not permit the target, each with the way to it. -/
def doors (s : Store) (target : NodeHandle) (frontier : List Reached) :
    List (Reached × NodeHandle) :=
  (frontier.filter fun r => !(s.permittedChildren r.field).contains target).flatMap fun r =>
    (s.transparentChildren r.field).map fun c => (r, c)

/-- The doors through which a round goes: the first to each class that is new. -/
def openedDoors (s : Store) (target : NodeHandle) (entered : List NodeHandle)
    (frontier : List Reached) : List (Reached × NodeHandle) :=
  Walk.firstByKey (·.2) entered (s.doors target frontier)

/-- The tree fields behind a door. -/
def behind (s : Store) (door : Reached × NodeHandle) : List Reached :=
  (s.treeFields door.2).map fun f => { field := f, path := door.1.path ++ [door.2, f] }

/-- The frontier after a round. -/
def frontierAfter (s : Store) (target : NodeHandle) (entered : List NodeHandle)
    (frontier : List Reached) : List Reached :=
  (s.openedDoors target entered frontier).flatMap s.behind

/-- The classes that have been entered after a round. -/
def enteredAfter (s : Store) (target : NodeHandle) (entered : List NodeHandle)
    (frontier : List Reached) : List NodeHandle :=
  ((s.openedDoors target entered frontier).map (·.2)).reverse ++ entered

lemma beyond_eq (r : Reached) (entered cs : List NodeHandle) :
    s.beyond r entered cs =
      let opened := Walk.firstByKey (·.2) entered (cs.map fun c => (r, c))
      (opened.flatMap s.behind, (opened.map (·.2)).reverse ++ entered) := by
  induction cs generalizing entered with
  | nil => rfl
  | cons c rest ih =>
    rw [beyond, List.map_cons, Walk.firstByKey]
    split
    · exact ih entered
    · rw [ih]
      simp [behind]

lemma searchRound_eq (target : NodeHandle) (entered : List NodeHandle) (frontier : List Reached) :
    s.searchRound target entered frontier =
      (s.foundAt target frontier, s.frontierAfter target entered frontier,
        s.enteredAfter target entered frontier) := by
  unfold frontierAfter enteredAfter openedDoors foundAt
  induction frontier generalizing entered with
  | nil => rfl
  | cons r rest ih =>
    rw [searchRound]
    split
    · next hr => simp only [ih, doors, List.filter_cons, hr, if_true, Bool.not_true, List.map_cons,
        Bool.false_eq_true, if_false]
    · next hr =>
      have hdoors : s.doors target (r :: rest) =
          (s.transparentChildren r.field).map (fun c => (r, c)) ++ s.doors target rest := by
        simp only [doors, List.filter_cons, hr, Bool.not_false, if_true, List.flatMap_cons]
      rw [beyond_eq, hdoors, Walk.firstByKey_append]
      simp only [ih, List.filter_cons, hr, List.flatMap_append, List.map_append,
        List.reverse_append, List.append_assoc, Bool.false_eq_true, if_false]

lemma mem_foundAt_iff {path : List NodeHandle} : path ∈ s.foundAt target frontier ↔
    ∃ r ∈ frontier, s.Permits r.field target ∧ r.path = path := by
  simp [foundAt, mem_permittedChildren_iff, and_assoc]

lemma mem_doors_iff {door : Reached × NodeHandle} : door ∈ s.doors target frontier ↔
    door.1 ∈ frontier ∧ ¬ s.Permits door.1.field target ∧ s.Permits door.1.field door.2 ∧
      s.isTransparent door.2 = true := by
  obtain ⟨r, c⟩ := door
  simp only [doors, List.mem_flatMap, List.mem_filter, List.mem_map, mem_transparentChildren_iff,
    Prod.mk.injEq, Bool.not_eq_true', List.contains_eq_mem, decide_eq_false_iff_not,
    mem_permittedChildren_iff]
  constructor
  · rintro ⟨_, ⟨hr, hn⟩, _, ⟨hc, ht⟩, rfl, rfl⟩
    exact ⟨hr, hn, hc, ht⟩
  · rintro ⟨hr, hn, hc, ht⟩
    exact ⟨r, ⟨hr, hn⟩, c, ⟨hc, ht⟩, rfl, rfl⟩

/-- A class is new, or has been entered before, or is entered through some door in this round. -/
lemma exists_mem_openedDoors (entered : List NodeHandle) {door : Reached × NodeHandle}
    (h : door ∈ s.doors target frontier) :
    door.2 ∈ entered ∨ ∃ r, (r, door.2) ∈ s.openedDoors target entered frontier := by
  obtain h | ⟨⟨r, _⟩, hr, rfl⟩ := Walk.exists_mem_firstByKey Prod.snd entered h
  · exact .inl h
  · exact .inr ⟨r, hr⟩

lemma mem_behind_iff {door : Reached × NodeHandle} {x : Reached} : x ∈ s.behind door ↔
    x.field ∈ s.treeFields door.2 ∧ x.path = door.1.path ++ [door.2, x.field] := by
  rw [behind, List.mem_map]
  constructor
  · rintro ⟨f, hf, rfl⟩
    exact ⟨hf, rfl⟩
  · rintro ⟨hf, hp⟩
    exact ⟨x.field, hf, by rw [← hp]⟩

/-! ## Levels -/

/-- The search has gone through a number of classes.  A field that is not at the frontier can be
reached through fewer of them, and the target is permitted by none of these. -/
structure AtLevel (s : Store) (start target : NodeHandle) (n : Nat) (entered : List NodeHandle)
    (frontier : List Reached) : Prop where
  reached : ∀ r ∈ frontier, s.Route start n r.field r.path
  before : ∀ m < n, ∀ path, ¬ s.IsPath start target m path
  covers : ∀ f path, s.Route start n f path →
    (∃ r ∈ frontier, r.field = f ∧ ending r.path = ending path) ∨
      ∃ m < n, ∃ q, s.Route start m f q
  apart : ∀ r ∈ frontier, ∀ r' ∈ frontier, ending r.path = ending r'.path → r.path = r'.path
  entered : ∀ c ∈ entered, s.isTransparent c = true → ∀ g ∈ s.treeFields c,
    ∃ m ≤ n, ∃ q, s.Route start m g q

lemma AtLevel.searchStart (s : Store) (start target : NodeHandle) :
    s.AtLevel start target 0 [start] (s.searchStart start) := by
  refine ⟨?_, fun m hm => absurd hm (Nat.not_lt_zero m), ?_, ?_, ?_⟩
  · intro r hr
    unfold Store.searchStart at hr
    split at hr
    · next h =>
      rw [List.mem_singleton.1 hr]
      exact .field h
    · next h =>
      obtain ⟨f, hf, rfl⟩ := List.mem_map.1 hr
      exact .own (Bool.eq_false_iff.2 h) hf
  · intro f path hf
    left
    unfold Store.searchStart
    cases hf with
    | field h =>
      rw [if_pos h]
      exact ⟨_, List.mem_singleton_self _, rfl, rfl⟩
    | own h hf =>
      rw [if_neg (by simp [h])]
      exact ⟨_, List.mem_map_of_mem hf, rfl, rfl⟩
  · intro r hr r' hr' he
    unfold Store.searchStart at hr hr'
    split at hr
    · next h =>
      rw [if_pos h] at hr'
      rw [List.mem_singleton.1 hr, List.mem_singleton.1 hr']
    · next h =>
      rw [if_neg h] at hr'
      obtain ⟨f, _, rfl⟩ := List.mem_map.1 hr
      obtain ⟨f', _, rfl⟩ := List.mem_map.1 hr'
      exact he
  · intro c hc ht g hg
    rw [List.mem_singleton.1 hc] at ht hg
    exact ⟨0, le_rfl, _, .of_isTransparent ht hg⟩

/-- As long as no field at the frontier permits the target, the search gets one class further. -/
lemma AtLevel.next (h : s.AtLevel start target n entered frontier)
    (hfound : ∀ r ∈ frontier, ¬ s.Permits r.field target) :
    s.AtLevel start target (n + 1) (s.enteredAfter target entered frontier)
      (s.frontierAfter target entered frontier) := by
  have hdoor : ∀ door ∈ s.openedDoors target entered frontier, ∀ g ∈ s.treeFields door.2,
      s.Route start (n + 1) g (door.1.path ++ [door.2, g]) := by
    intro door hd g hg
    obtain ⟨hr, _, hc, ht⟩ := mem_doors_iff.1 (Walk.mem_of_mem_firstByKey hd)
    exact (h.reached _ hr).through hc ht hg
  refine ⟨?_, ?_, ?_, ?_, ?_⟩
  · intro x hx
    obtain ⟨door, hd, hx⟩ := List.mem_flatMap.1 hx
    obtain ⟨hf, hp⟩ := mem_behind_iff.1 hx
    rw [hp]
    exact hdoor door hd _ hf
  · -- a path through as many classes as the frontier is away ends at the frontier
    intro m hm path hpath
    obtain hm | rfl := Nat.lt_succ_iff_lt_or_eq.1 hm
    · exact h.before m hm path hpath
    · obtain ⟨f, hf, hp⟩ := hpath
      obtain ⟨r, hr, rfl, _⟩ | ⟨k, hk, q, hq⟩ := h.covers f path hf
      · exact hfound r hr hp
      · exact h.before k hk q ⟨f, hq, hp⟩
  · intro g path hg
    cases hg with
    | @through _ f c _ path hf hc ht hg =>
      obtain ⟨r, hr, rfl, _⟩ | ⟨m, hm, q, hq⟩ := h.covers f path hf
      · have hmem : (r, c) ∈ s.doors target frontier :=
          mem_doors_iff.2 ⟨hr, hfound r hr, hc, ht⟩
        obtain he | ⟨r', hr'⟩ := exists_mem_openedDoors entered hmem
        · obtain ⟨m, hm, q, hq⟩ := h.entered c he ht g hg
          exact .inr ⟨m, Nat.lt_succ_of_le hm, q, hq⟩
        · refine .inl ⟨⟨g, r'.path ++ [c, g]⟩, ?_, rfl, ?_⟩
          · exact List.mem_flatMap.2 ⟨_, hr', mem_behind_iff.2 ⟨hg, rfl⟩⟩
          · rw [ending_append, ending_append]
      · exact .inr ⟨m + 1, Nat.succ_lt_succ hm, _, hq.through hc ht hg⟩
  · -- the same class is entered through one door only
    intro x hx x' hx' he
    obtain ⟨door, hd, hx⟩ := List.mem_flatMap.1 hx
    obtain ⟨door', hd', hx'⟩ := List.mem_flatMap.1 hx'
    rw [(mem_behind_iff.1 hx).2, (mem_behind_iff.1 hx').2] at he ⊢
    rw [ending_append, ending_append, List.cons.injEq, List.cons.injEq] at he
    obtain rfl := List.inj_on_of_nodup_map (Walk.nodup_map_firstByKey ..).1 hd hd' he.1
    rw [he.2.1]
  · intro c hc ht g hg
    obtain hc | hc := List.mem_append.1 hc
    · obtain ⟨door, hd, rfl⟩ := List.mem_map.1 (List.mem_reverse.1 hc)
      exact ⟨n + 1, le_rfl, _, hdoor door hd g hg⟩
    · obtain ⟨m, hm, hq⟩ := h.entered c hc ht g hg
      exact ⟨m, Nat.le_succ_of_le hm, hq⟩

/-- With nothing at the frontier all routes are known. -/
lemma AtLevel.exists_lt (h : s.AtLevel start target n entered []) {k : Nat} {f : NodeHandle}
    {path : List NodeHandle} (hf : s.Route start k f path) : ∃ m < n, ∃ q, s.Route start m f q := by
  have hlevel : ∀ {f path}, s.Route start n f path → ∃ m < n, ∃ q, s.Route start m f q := by
    intro f path hf
    obtain ⟨_, hr, _⟩ | hm := h.covers f path hf
    · cases hr
    · exact hm
  have hstart : ∀ {f path}, s.Route start 0 f path → ∃ m < n, ∃ q, s.Route start m f q := by
    intro f path hf
    obtain rfl | hn := Nat.eq_zero_or_pos n
    · exact hlevel hf
    · exact ⟨0, hn, path, hf⟩
  induction hf with
  | field hs => exact hstart (.field hs)
  | own hs hf => exact hstart (.own hs hf)
  | through _ hc ht hg ih =>
    obtain ⟨m, hm, q, hq⟩ := ih
    have hnext := hq.through hc ht hg
    obtain hm | rfl := Nat.lt_or_eq_of_le (Nat.succ_le_of_lt hm)
    · exact ⟨m + 1, hm, _, hnext⟩
    · exact hlevel hnext

/-! ## The result of the search -/

lemma nodup_eraseDups {α : Type*} [BEq α] [LawfulBEq α] (l : List α) : l.eraseDups.Nodup := by
  induction hn : l.length using Nat.strong_induction_on generalizing l with
  | _ n ih =>
    cases l with
    | nil => exact List.nodup_nil
    | cons x r =>
      have hr : (r.filter fun y => !y == x).length < n := by
        rw [← hn]
        exact Nat.lt_succ_of_le (List.length_filter_le _ _)
      rw [List.eraseDups_cons]
      refine List.nodup_cons.2 ⟨?_, ih _ hr _ rfl⟩
      simp [List.mem_eraseDups]

/-- Some paths are shortest ones, and every shortest path ends like one of them, which is the only
one that ends so. -/
structure Settles (s : Store) (start target : NodeHandle) (paths : List (List NodeHandle)) : Prop where
  shortest : ∀ p ∈ paths, s.IsShortest start target p
  covers : ∀ p, s.IsShortest start target p → ∃ q ∈ paths, ending q = ending p
  apart : ∀ p ∈ paths, ∀ q ∈ paths, ending p = ending q → p = q
  nodup : paths.Nodup

/-- The first round in which fields permit the target settles the search. -/
lemma AtLevel.settles (h : s.AtLevel start target n entered frontier)
    (hfound : s.foundAt target frontier ≠ []) :
    s.Settles start target (s.foundAt target frontier).eraseDups := by
  have hmem : ∀ {p}, p ∈ (s.foundAt target frontier).eraseDups ↔
      ∃ r ∈ frontier, s.Permits r.field target ∧ r.path = p := by
    intro p
    rw [List.mem_eraseDups, mem_foundAt_iff]
  have hpath : ∀ r ∈ frontier, s.Permits r.field target → s.IsPath start target n r.path :=
    fun r hr hp => ⟨r.field, h.reached r hr, hp⟩
  have hleast : ∀ m q, s.IsPath start target m q → n ≤ m := by
    intro m q hq
    by_contra hm
    exact h.before m (Nat.lt_of_not_le hm) q hq
  refine ⟨?_, ?_, ?_, nodup_eraseDups _⟩
  · intro p hp
    obtain ⟨r, hr, hrp, rfl⟩ := hmem.1 hp
    exact ⟨n, hpath r hr hrp, hleast⟩
  · rintro p ⟨k, ⟨f, hf, hp⟩, hk⟩
    obtain ⟨q, hq⟩ := List.exists_mem_of_ne_nil _ hfound
    obtain ⟨r, hr, hrp, rfl⟩ := mem_foundAt_iff.1 hq
    obtain rfl : n = k := Nat.le_antisymm (hleast k p ⟨f, hf, hp⟩) (hk n _ (hpath r hr hrp))
    obtain ⟨r', hr', rfl, he⟩ | ⟨m, hm, q, hq⟩ := h.covers f p hf
    · exact ⟨r'.path, hmem.2 ⟨r', hr', hp, rfl⟩, he⟩
    · exact absurd ⟨f, hq, hp⟩ (h.before m hm q)
  · intro p hp q hq he
    obtain ⟨r, hr, _, rfl⟩ := hmem.1 hp
    obtain ⟨r', hr', _, rfl⟩ := hmem.1 hq
    exact h.apart r hr r' hr' he

lemma AtLevel.settles_nil (h : s.AtLevel start target n entered []) :
    s.Settles start target [] := by
  refine ⟨List.forall_mem_nil _, ?_, List.forall_mem_nil _, List.nodup_nil⟩
  rintro p ⟨k, ⟨f, hf, hp⟩, _⟩
  obtain ⟨m, hm, q, hq⟩ := h.exists_lt hf
  exact absurd ⟨f, hq, hp⟩ (h.before m hm q)

/-! ## The rounds -/

/-- The classes that have been entered, and the start, are counted once each and are all in use. -/
structure Entered (s : Store) (start : NodeHandle) (entered : List NodeHandle) : Prop where
  nodup : entered.Nodup
  subset : entered ⊆ start :: s.linked

lemma Entered.initial (s : Store) (start : NodeHandle) : s.Entered start [start] :=
  ⟨List.nodup_singleton start, List.cons_subset.2 ⟨List.mem_cons_self, List.nil_subset _⟩⟩

lemma Entered.next (h : s.Entered start entered) :
    s.Entered start (s.enteredAfter target entered frontier) := by
  obtain ⟨hd, hnew⟩ := Walk.nodup_map_firstByKey Prod.snd entered (s.doors target frontier)
  constructor
  · refine List.nodup_append.2 ⟨List.nodup_reverse.2 hd, h.nodup, ?_⟩
    rintro _ hc c hc' rfl
    obtain ⟨door, hdoor, rfl⟩ := List.mem_map.1 (List.mem_reverse.1 hc)
    exact hnew door hdoor hc'
  · refine List.append_subset.2 ⟨fun c hc => ?_, h.subset⟩
    obtain ⟨door, hdoor, rfl⟩ := List.mem_map.1 (List.mem_reverse.1 hc)
    have hp := (mem_doors_iff.1 (Walk.mem_of_mem_firstByKey hdoor)).2.2.1
    exact List.mem_cons_of_mem start
      (permittedChildren_subset_linked _ (mem_permittedChildren_iff.2 hp))

/-- The number of rounds is enough if it exceeds what may still be entered. -/
def Lasts (s : Store) (start : NodeHandle) (rounds : Nat) (entered : List NodeHandle)
    (frontier : List Reached) : Prop :=
  frontier ≠ [] → (start :: s.linked).length < entered.length + rounds

lemma Lasts.initial (s : Store) (start : NodeHandle) (frontier : List Reached) :
    s.Lasts start (s.extent + 1) [start] frontier := by
  intro _
  have h := s.length_linked_lt
  simp only [List.length_cons, List.length_nil]
  omega

lemma Lasts.eq_nil (h : s.Lasts start 0 entered frontier) (he : s.Entered start entered) :
    frontier = [] := by
  by_contra hne
  have hlen := (List.subperm_of_subset he.nodup he.subset).length_le
  have hlt := h hne
  omega

/-- What lies behind the doors is there because some class has been entered. -/
lemma Lasts.next {rounds : Nat} (h : s.Lasts start (rounds + 1) entered frontier) :
    s.Lasts start rounds (s.enteredAfter target entered frontier)
      (s.frontierAfter target entered frontier) := by
  intro hne
  have hopened : s.openedDoors target entered frontier ≠ [] := by
    intro e
    rw [frontierAfter, e] at hne
    exact hne rfl
  have hfrontier : frontier ≠ [] := by
    rintro rfl
    exact hopened rfl
  have hpos := List.length_pos_iff.2 hopened
  have hlt := h hfrontier
  rw [enteredAfter, List.length_append, List.length_reverse, List.length_map]
  omega

lemma shortestPaths_succ (rounds : Nat) (entered : List NodeHandle) (frontier : List Reached) :
    s.shortestPaths target (rounds + 1) entered frontier =
      if (s.foundAt target frontier).isEmpty then
        s.shortestPaths target rounds (s.enteredAfter target entered frontier)
          (s.frontierAfter target entered frontier)
      else (s.foundAt target frontier).eraseDups := by
  cases frontier with
  | nil => cases rounds <;> rfl
  | cons r rest =>
    rw [shortestPaths, searchRound_eq]
    intro h
    cases h

lemma AtLevel.settles_shortestPaths {rounds : Nat} (h : s.AtLevel start target n entered frontier)
    (he : s.Entered start entered) (hr : s.Lasts start rounds entered frontier) :
    s.Settles start target (s.shortestPaths target rounds entered frontier) := by
  induction rounds generalizing n entered frontier with
  | zero =>
    obtain rfl := hr.eq_nil he
    exact h.settles_nil
  | succ rounds ih =>
    rw [shortestPaths_succ]
    split
    · next hfound =>
      rw [List.isEmpty_iff] at hfound
      refine ih (h.next fun r hmem hp => ?_) he.next hr.next
      have hr := mem_foundAt_iff.2 ⟨r, hmem, hp, rfl⟩
      rw [hfound] at hr
      cases hr
    · next hfound => exact h.settles fun e => hfound (List.isEmpty_iff.2 e)

/-- Rounds beyond those that are enough change nothing. -/
lemma shortestPaths_of_le {rounds more : Nat} (he : s.Entered start entered)
    (hr : s.Lasts start rounds entered frontier) (hle : rounds ≤ more) :
    s.shortestPaths target more entered frontier =
      s.shortestPaths target rounds entered frontier := by
  induction rounds generalizing more entered frontier with
  | zero =>
    obtain rfl := hr.eq_nil he
    cases more <;> rfl
  | succ rounds ih =>
    obtain ⟨more, rfl⟩ := Nat.exists_eq_add_of_lt hle
    rw [shortestPaths_succ, shortestPaths_succ]
    split
    · exact ih he.next hr.next (Nat.le_add_right _ _)
    · rfl

/-- The paths that the search comes up with. -/
def candidates (s : Store) (start target : NodeHandle) : List (List NodeHandle) :=
  s.shortestPaths target (s.extent + 1) [start] (s.searchStart start)

lemma settles_candidates (s : Store) (start target : NodeHandle) :
    s.Settles start target (s.candidates start target) :=
  (AtLevel.searchStart s start target).settles_shortestPaths (.initial s start)
    (.initial s start _)

/-- The message about more than one shortest path. -/
def ambiguity (s : Store) (start target : NodeHandle) : LogEvent :=
  .message
    { severity := .error
      text := s!"Ambiguous path from \"{s.pathText start}\" to \"{s.name target}\"" }

lemma pathTo_eq (s : Store) (start target : NodeHandle) :
    (s.candidates start target = [] ∧ s.pathTo start target = ⟨none, []⟩) ∨
      (∃ p, s.candidates start target = [p] ∧ s.pathTo start target = ⟨some p, []⟩) ∨
      ∃ p q rest notes, s.candidates start target = p :: q :: rest ∧
        s.pathTo start target = ⟨none, s.ambiguity start target :: notes⟩ := by
  unfold pathTo
  rw [← candidates]
  match s.candidates start target with
  | [] => exact .inl ⟨rfl, rfl⟩
  | [p] => exact .inr (.inl ⟨p, rfl, rfl⟩)
  | p :: q :: rest => exact .inr (.inr ⟨p, q, rest, _, rfl, rfl⟩)

/-! ## Shortest paths -/

/-- A path that is given is a shortest one.  Without any path to the target nothing is reported; if
there are paths and none is given, it is reported that there are several.  The search comes to an
end by itself, also where classes contain or inherit from each other in circles: more rounds change
nothing, neither of the search nor of the walks through subclasses and along superclasses in it. -/
theorem pathTo_finds_shortest (s : Store) (start target : NodeHandle) :
    (∀ p, (s.pathTo start target).value = some p → s.IsShortest start target p) ∧
    ((∀ n p, ¬ s.IsPath start target n p) → s.pathTo start target = ⟨none, []⟩) ∧
    ((s.pathTo start target).value = none → ∀ n p, s.IsPath start target n p →
      s.ambiguity start target ∈ (s.pathTo start target).events) ∧
    (∀ more, s.shortestPaths target (s.extent + 1 + more) [start] (s.searchStart start) =
      s.shortestPaths target (s.extent + 1) [start] (s.searchStart start)) ∧
    (∀ more field, Walk.breadthFirst s.subclasses (s.extent + more) (s.declaredChildren field) [] =
      s.permittedChildren field) ∧
    ∀ more c, Walk.follow (fun c => (s.superclass? c).bind s.live?) (s.extent + 1 + more)
      (s.live? c) [] = s.classLine c := by
  have hset := s.settles_candidates start target
  refine ⟨?_, ?_, ?_, fun more => shortestPaths_of_le (.initial s start) (.initial s start _)
    (Nat.le_add_right _ _), fun more field => breadthFirst_subclasses_add field more,
    fun more c => follow_superclass_add c more⟩
  · intro p hp
    obtain ⟨_, e⟩ | ⟨q, hq, e⟩ | ⟨_, _, _, _, _, e⟩ := s.pathTo_eq start target
    · rw [e] at hp
      cases hp
    · rw [e] at hp
      cases hp
      exact hset.shortest p (hq ▸ List.mem_singleton_self p)
    · rw [e] at hp
      cases hp
  · intro hno
    have hnone : ∀ p, p ∉ s.candidates start target := by
      intro p hp
      obtain ⟨n, hpath, _⟩ := hset.shortest p hp
      exact hno n p hpath
    obtain ⟨_, e⟩ | ⟨p, hp, _⟩ | ⟨p, q, rest, _, hp, _⟩ := s.pathTo_eq start target
    · exact e
    · exact absurd (hp ▸ List.mem_cons_self) (hnone p)
    · exact absurd (hp ▸ List.mem_cons_self) (hnone p)
  · intro hnone n p hpath
    obtain ⟨q, hq⟩ := exists_isShortest hpath
    obtain ⟨r, hr, _⟩ := hset.covers q hq
    obtain ⟨h, _⟩ | ⟨p, _, e⟩ | ⟨p, q, rest, notes, _, e⟩ := s.pathTo_eq start target
    · rw [h] at hr
      cases hr
    · rw [e] at hnone
      cases hnone
    · rw [e]
      exact List.mem_cons_self

/-- Several shortest paths are reported exactly if two of them differ in the last class or the last
field.  All that end alike count as one, so that the path that is given is the only shortest one up
to what comes before its last class. -/
theorem pathTo_tells_endings_apart (s : Store) (start target : NodeHandle) :
    (s.ambiguity start target ∈ (s.pathTo start target).events ↔
      ∃ p q, s.IsShortest start target p ∧ s.IsShortest start target q ∧ ending p ≠ ending q) ∧
    (s.ambiguity start target ∈ (s.pathTo start target).events →
      (s.pathTo start target).value = none) ∧
    (∀ p, (s.pathTo start target).value = some p →
      s.IsShortest start target p ∧ ∀ q, s.IsShortest start target q → ending q = ending p) ∧
    ∀ p, s.IsShortest start target p → (∀ q, s.IsShortest start target q → q = p) →
      s.pathTo start target = ⟨some p, []⟩ := by
  have hset := s.settles_candidates start target
  obtain ⟨hc, e⟩ | ⟨p, hc, e⟩ | ⟨p, q, rest, notes, hc, e⟩ := s.pathTo_eq start target
  · -- no candidates, so that there is no shortest path
    have hno : ∀ p, ¬ s.IsShortest start target p := by
      intro p hp
      obtain ⟨q, hq, _⟩ := hset.covers p hp
      rw [hc] at hq
      cases hq
    rw [e]
    refine ⟨⟨fun h => (by cases h), ?_⟩, fun h => (by cases h), fun p h => (by cases h), ?_⟩
    · rintro ⟨p, _, hp, _⟩
      exact absurd hp (hno p)
    · exact fun p hp => absurd hp (hno p)
  · have hp : s.IsShortest start target p := hset.shortest p (hc ▸ List.mem_singleton_self p)
    have hend : ∀ q, s.IsShortest start target q → ending q = ending p := by
      intro q hq
      obtain ⟨r, hr, he⟩ := hset.covers q hq
      rw [hc, List.mem_singleton] at hr
      rw [← he, hr]
    rw [e]
    refine ⟨⟨fun h => (by cases h), ?_⟩, fun h => (by cases h), ?_, ?_⟩
    · rintro ⟨q, r, hq, hr, hne⟩
      exact absurd ((hend q hq).trans (hend r hr).symm) hne
    · intro q hq
      cases hq
      exact ⟨hp, hend⟩
    · intro q _ huniq
      rw [huniq p hp]
  · have hp := hset.shortest p (hc ▸ List.mem_cons_self)
    have hq := hset.shortest q (hc ▸ List.mem_cons_of_mem p List.mem_cons_self)
    have hne : p ≠ q := by
      have hd := hc ▸ hset.nodup
      exact fun h => (List.nodup_cons.1 hd).1 (h ▸ List.mem_cons_self)
    have hends : ending p ≠ ending q := fun h => hne (hset.apart p (hc ▸ List.mem_cons_self) q
      (hc ▸ List.mem_cons_of_mem p List.mem_cons_self) h)
    rw [e]
    refine ⟨⟨fun _ => ⟨p, q, hp, hq, hends⟩, fun _ => List.mem_cons_self⟩, fun _ => rfl,
      fun p h => (by cases h), ?_⟩
    intro r _ huniq
    exact absurd ((huniq p hp).trans (huniq q hq).symm) hne

/-- An ontology in which two transparent classes hold the same third one, which holds the target. -/
def diamondSession : List SessionStep :=
  [.operate (.createOntology "o"),
    .operate (.createClass ⟨1, 1⟩ "start" .any none false true),
    .operate (.createClass ⟨1, 1⟩ "a" .any none true false),
    .operate (.createClass ⟨1, 1⟩ "b" .any none true false),
    .operate (.createClass ⟨1, 1⟩ "d" .any none true false),
    .operate (.createClass ⟨1, 1⟩ "t" .any none false false),
    .operate (.createField ⟨2, 1⟩ .tree "" false none),
    .operate (.createField ⟨4, 1⟩ .tree "" false none),
    .operate (.createField ⟨6, 1⟩ .tree "" false none),
    .operate (.createField ⟨8, 1⟩ .tree "" false none),
    .operate (.addChildClass ⟨12, 1⟩ ⟨4, 1⟩), .operate (.addChildClass ⟨12, 1⟩ ⟨6, 1⟩),
    .operate (.addChildClass ⟨13, 1⟩ ⟨8, 1⟩), .operate (.addChildClass ⟨14, 1⟩ ⟨8, 1⟩),
    .operate (.addChildClass ⟨15, 1⟩ ⟨10, 1⟩)]

/-- Both ways through the diamond are shortest paths.  One of them is given as if it were the only
one. -/
theorem pathTo_diamondSession :
    (after diamondSession).pathTo ⟨2, 1⟩ ⟨10, 1⟩ =
      ⟨some [⟨12, 1⟩, ⟨4, 1⟩, ⟨13, 1⟩, ⟨8, 1⟩, ⟨15, 1⟩], []⟩ ∧
    (after diamondSession).IsShortest ⟨2, 1⟩ ⟨10, 1⟩ [⟨12, 1⟩, ⟨4, 1⟩, ⟨13, 1⟩, ⟨8, 1⟩, ⟨15, 1⟩] ∧
    (after diamondSession).IsShortest ⟨2, 1⟩ ⟨10, 1⟩ [⟨12, 1⟩, ⟨6, 1⟩, ⟨14, 1⟩, ⟨8, 1⟩, ⟨15, 1⟩] := by
  have hcandidates : (after diamondSession).candidates ⟨2, 1⟩ ⟨10, 1⟩ =
      [[⟨12, 1⟩, ⟨4, 1⟩, ⟨13, 1⟩, ⟨8, 1⟩, ⟨15, 1⟩]] := by
    decide +kernel
  have hfirst := (settles_candidates (after diamondSession) ⟨2, 1⟩ ⟨10, 1⟩).shortest _
    (hcandidates ▸ List.mem_singleton_self _)
  refine ⟨?_, hfirst, ?_⟩
  · obtain ⟨h, _⟩ | ⟨p, h, e⟩ | ⟨p, q, rest, notes, h, _⟩ :=
      pathTo_eq (after diamondSession) ⟨2, 1⟩ ⟨10, 1⟩
    · rw [hcandidates] at h
      cases h
    · rw [hcandidates] at h
      cases h
      exact e
    · rw [hcandidates] at h
      cases h
  · obtain ⟨n, ⟨_, hroute, _⟩, hleast⟩ := hfirst
    obtain rfl : 2 = n := hroute.classes_eq
    have hroute' : (after diamondSession).Route ⟨2, 1⟩ 2 ⟨15, 1⟩
        [⟨12, 1⟩, ⟨6, 1⟩, ⟨14, 1⟩, ⟨8, 1⟩, ⟨15, 1⟩] :=
      .through (.through (.own (by decide +kernel) (by decide +kernel))
        (mem_permittedChildren_iff.1 (by decide +kernel)) (by decide +kernel) (by decide +kernel))
        (mem_permittedChildren_iff.1 (by decide +kernel)) (by decide +kernel) (by decide +kernel)
    exact ⟨2, ⟨_, hroute', mem_permittedChildren_iff.1 (by decide +kernel)⟩, hleast⟩

end Semdoc.Store
