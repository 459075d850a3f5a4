import Semdoc.Parse.Scope
import Semdoc.Proofs.Log.Computations
import Semdoc.Proofs.Session.Resolution

/-!
# References that wait

What a scope does with the references that wait is told by the tries that it makes: each looks a
reference up in the world that the one before has left, and if it finds a node it hands it to the
callback, which may leave another world.  Every pass tries in order what the one before has not
found.  So each reference is either handed to its callback once or reported once, whatever the
callbacks do.
-/

namespace Semdoc

variable {σ : Type}

/-- The message about a reference that is given up. -/
def PendingReference.unresolved (p : PendingReference σ) : LogEvent :=
  .message
    { severity := .error
      text := s!"Could not resolve {p.type.name} \"{Text.joinPath p.path}\""
      location := p.location }

namespace Scope

/-! ## Looking a reference up -/

/-- A node is the first to which a path leads as seen from the innermost of some nodes from which it
leads anywhere. -/
def Sees (s : Store) (nodes : List NodeHandle) (path : List String) (type : TypeTag)
    (h : NodeHandle) : Prop :=
  ∃ inner root outer, nodes = inner ++ root :: outer ∧
    (∀ r ∈ inner, s.resolve r path type = []) ∧ (s.resolve root path type).head? = some h

section Lookup

variable {s : Store} {path : List String} {type : TypeTag} {l : Location} {nodes : List NodeHandle}

lemma value_resolveUnique (root : NodeHandle) :
    (s.resolveUnique root path type l).value = (s.resolve root path type).head? := by
  unfold Store.resolveUnique
  by_cases h : 1 < (s.resolve root path type).length
  · simp only [if_pos h]
    rfl
  · simp only [if_neg h]
    rfl

lemma value_lookup_cons (root : NodeHandle) (outer : List NodeHandle) :
    (lookup s path type l (root :: outer)).value =
      (s.resolve root path type).head?.or (lookup s path type l outer).value := by
  rw [lookup, Logged.value_bind, value_resolveUnique]
  cases (s.resolve root path type).head? <;> rfl

lemma value_lookup_eq_none_iff :
    (lookup s path type l nodes).value = none ↔ ∀ r ∈ nodes, s.resolve r path type = [] := by
  induction nodes with
  | nil => exact ⟨fun _ => List.forall_mem_nil _, fun _ => rfl⟩
  | cons root outer ih =>
    rw [value_lookup_cons, Option.or_eq_none_iff, ih, List.head?_eq_none_iff, List.forall_mem_cons]

lemma sees_of_value_lookup {h : NodeHandle} (hh : (lookup s path type l nodes).value = some h) :
    Sees s nodes path type h := by
  induction nodes with
  | nil => cases hh
  | cons root outer ih =>
    rw [value_lookup_cons] at hh
    cases hr : s.resolve root path type with
    | nil =>
      rw [hr] at hh
      obtain ⟨inner, r, rest, rfl, hinner, hhead⟩ := ih hh
      exact ⟨root :: inner, r, rest, rfl, List.forall_mem_cons.2 ⟨hr, hinner⟩, hhead⟩
    | cons x rest =>
      rw [hr] at hh
      refine ⟨[], root, outer, rfl, List.forall_mem_nil _, ?_⟩
      rw [hr]
      exact hh

lemma Sees.isA {h : NodeHandle} (hh : Sees s nodes path type h) : s.isA h type = true := by
  obtain ⟨_, root, _, _, _, hhead⟩ := hh
  exact Store.isA_of_mem_resolve (List.mem_of_mem_head? hhead)

end Lookup

/-! ## Tries -/

/-- A try to resolve a reference, with its place in the queue and the world in which it is made. -/
structure Try (σ : Type) where
  reference : PendingReference σ
  place : Nat
  world : World σ

namespace Try

/-- The reference is looked up as seen from the nodes that it has kept. -/
def look (t : Try σ) : Logged (Option NodeHandle) :=
  lookup t.world.store t.reference.path t.reference.type t.reference.location t.reference.nodes

/-- What is found. -/
def found (t : Try σ) : Option NodeHandle := t.look.value

/-- The callback is told what is found, if anything is; gives the world that it leaves. -/
def call (t : Try σ) : Logged (World σ) :=
  match t.found with
  | some h =>
    let done := t.reference.callback h t.reference.owner t.world
    ⟨done.value.2, done.events⟩
  | none => ⟨t.world, []⟩

/-- The world after the try. -/
def after (t : Try σ) : World σ := t.call.value

/-- What is reported during the try. -/
def events (t : Try σ) : List LogEvent := t.look.events ++ t.call.events

/-- What is tried. -/
def entry (t : Try σ) : PendingReference σ × Nat := (t.reference, t.place)

/-- What is found by nobody stays. -/
def failed (t : Try σ) : Bool := t.found.isNone

lemma after_of_failed {t : Try σ} (h : t.failed = true) : t.after = t.world := by
  rw [after, call, Option.isNone_iff_eq_none.1 h]

end Try

/-- Every try is made in the world that the one before has left. -/
def InSequence : World σ → List (Try σ) → World σ → Prop
  | w, [], w' => w' = w
  | w, t :: r, w' => t.world = w ∧ InSequence t.after r w'

/-- What some tries have not found, in order. -/
def leftBy (pass : List (Try σ)) : List (PendingReference σ × Nat) :=
  (pass.filter Try.failed).map Try.entry

/-- Every pass tries in order what waits, and then what it has not found waits for the next one.
`lost` is what waits in the end. -/
def InPasses : List (PendingReference σ × Nat) → List (List (Try σ)) →
    List (PendingReference σ × Nat) → Prop
  | waiting, [], lost => lost = waiting
  | waiting, pass :: rest, lost =>
    waiting ≠ [] ∧ pass.map Try.entry = waiting ∧ InPasses (leftBy pass) rest lost

lemma leftBy_cons (t : Try σ) (r : List (Try σ)) :
    leftBy (t :: r) = if t.failed then t.entry :: leftBy r else leftBy r := by
  rw [leftBy, List.filter_cons]
  split <;> rfl

lemma InSequence.append {w w' w'' : World σ} {ts us : List (Try σ)} (h : InSequence w ts w')
    (h' : InSequence w' us w'') : InSequence w (ts ++ us) w'' := by
  induction ts generalizing w with
  | nil =>
    cases h
    exact h'
  | cons t r ih => exact ⟨h.1, ih h.2⟩

/-- As long as nothing is found the world stays as it is. -/
lemma InSequence.eq_of_failed {w w' : World σ} {ts : List (Try σ)} (h : InSequence w ts w')
    (hf : ∀ t ∈ ts, t.failed = true) : w' = w ∧ ∀ t ∈ ts, t.world = w := by
  induction ts generalizing w with
  | nil => exact ⟨h, List.forall_mem_nil _⟩
  | cons t r ih =>
    obtain ⟨rfl, h⟩ := h
    obtain ⟨ht, hr⟩ := List.forall_mem_cons.1 hf
    rw [Try.after_of_failed ht] at h
    obtain ⟨e, hw⟩ := ih h hr
    exact ⟨e, List.forall_mem_cons.2 ⟨rfl, hw⟩⟩

/-! ## One pass -/

lemma tryPending_cons (t : Try σ) (r : List (PendingReference σ)) :
    tryPending (t.reference :: r) t.world =
      let rest := tryPending r t.after
      ⟨(if t.failed then t.reference :: rest.value.1 else rest.value.1, rest.value.2),
        t.events ++ rest.events⟩ := by
  have hlook : lookup t.world.store t.reference.path t.reference.type t.reference.location
      t.reference.nodes = t.look := rfl
  rw [tryPending]
  simp only [Logged.run_bind, Logged.run_get, Logged.run_lift, hlook, List.nil_append]
  cases hf : t.look.value with
  | none => simp [Try.failed, Try.events, Try.after, Try.call, Try.found, hf]
  | some h => simp [Try.failed, Try.events, Try.after, Try.call, Try.found, hf]

/-- A pass through what waits is a sequence of tries. -/
lemma exists_tries (waiting : List (PendingReference σ × Nat)) (w : World σ) :
    ∃ pass w', pass.map Try.entry = waiting ∧ InSequence w pass w' ∧
      tryPending (waiting.map (·.1)) w =
        ⟨((leftBy pass).map (·.1), w'), pass.flatMap Try.events⟩ := by
  induction waiting generalizing w with
  | nil => exact ⟨[], w, rfl, rfl, rfl⟩
  | cons e r ih =>
    let t : Try σ := ⟨e.1, e.2, w⟩
    obtain ⟨pass, w', hpass, hseq, hrun⟩ := ih t.after
    refine ⟨t :: pass, w', ?_, ⟨rfl, hseq⟩, ?_⟩
    · rw [List.map_cons, hpass]
      rfl
    · rw [List.map_cons, show tryPending (e.1 :: r.map (·.1)) w = _ from tryPending_cons t _, hrun,
        leftBy_cons]
      cases t.failed <;> rfl

/-! ## All passes -/

/-- None of some references can be resolved in a world. -/
def Unresolvable (w : World σ) (lost : List (PendingReference σ × Nat)) : Prop :=
  ∀ e ∈ lost, ∀ root ∈ e.1.nodes, w.store.resolve root e.1.path e.1.type = []

/-- If a pass finds nothing, then nothing of what it has tried can be resolved in the world that
there is. -/
lemma unresolvable_of_length_leftBy {pass : List (Try σ)} {w w' : World σ}
    (hseq : InSequence w pass w') (h : (leftBy pass).length = pass.length) :
    Unresolvable w' (leftBy pass) := by
  rw [leftBy, List.length_map] at h
  have hf : ∀ t ∈ pass, t.failed = true := List.length_filter_eq_length_iff.1 h
  obtain ⟨rfl, hw⟩ := hseq.eq_of_failed hf
  intro e he root hroot
  obtain ⟨t, ht, rfl⟩ := List.mem_map.1 he
  obtain ⟨ht, hnone⟩ := List.mem_filter.1 ht
  rw [← hw t ht]
  exact value_lookup_eq_none_iff.1 (Option.isNone_iff_eq_none.1 hnone) root hroot

/-- The passes stop when one finds nothing.  If the rounds run out before, every one has found
something. -/
lemma exists_passes (rounds : Nat) (waiting : List (PendingReference σ × Nat)) (w : World σ) :
    ∃ passes lost w', InPasses waiting passes lost ∧ passes.length ≤ rounds ∧
      InSequence w passes.flatten w' ∧
      retry rounds (waiting.map (·.1)) w =
        ⟨(lost.map (·.1), w'), passes.flatten.flatMap Try.events⟩ ∧
      (Unresolvable w' lost ∨
        passes.length = rounds ∧ lost.length + rounds ≤ waiting.length) := by
  induction rounds generalizing waiting w with
  | zero => exact ⟨[], waiting, w, rfl, le_rfl, rfl, rfl, .inr ⟨rfl, le_rfl⟩⟩
  | succ rounds ih =>
    obtain rfl | hne := eq_or_ne waiting []
    · exact ⟨[], [], w, rfl, Nat.zero_le _, rfl, rfl, .inl (List.forall_mem_nil _)⟩
    obtain ⟨pass, w', hpass, hseq, hrun⟩ := exists_tries waiting w
    have hlen : pass.length = waiting.length := by rw [← hpass, List.length_map]
    have hle : (leftBy pass).length ≤ pass.length := by
      rw [leftBy, List.length_map]
      exact List.length_filter_le _ _
    rw [retry, Logged.run_bind, hrun]
    simp only [List.length_map]
    by_cases hstop : (leftBy pass).length = waiting.length
    · rw [if_pos hstop]
      refine ⟨[pass], leftBy pass, w', ⟨hne, hpass, rfl⟩, Nat.le_add_left 1 rounds, ?_, ?_,
        .inl (unresolvable_of_length_leftBy hseq (hstop.trans hlen.symm))⟩
      · simpa using hseq
      · simp
    · rw [if_neg hstop]
      obtain ⟨passes, lost, w'', hpasses, hcount, hseq', hrun', hend⟩ := ih (leftBy pass) w'
      refine ⟨pass :: passes, lost, w'', ⟨hne, hpass, hpasses⟩, Nat.succ_le_succ hcount,
        hseq.append hseq', ?_, hend.imp_right fun h => ⟨?_, ?_⟩⟩
      · rw [hrun', List.flatten_cons, List.flatMap_append]
      · rw [List.length_cons, h.1]
      · omega

/-- A reference is either found in one of the passes or lost in the end. -/
lemma InPasses.countP_eq {waiting lost : List (PendingReference σ × Nat)}
    {passes : List (List (Try σ))} (h : InPasses waiting passes lost) (i : Nat) :
    waiting.countP (fun e => e.2 == i) =
      passes.flatten.countP (fun t => t.place == i && !t.failed) +
        lost.countP (fun e => e.2 == i) := by
  induction passes generalizing waiting with
  | nil =>
    rw [show lost = waiting from h, List.flatten_nil, List.countP_nil, Nat.zero_add]
  | cons pass rest ih =>
    obtain ⟨_, rfl, h⟩ := h
    have hpass : (pass.map Try.entry).countP (fun e => e.2 == i) =
        pass.countP (fun t => t.place == i && !t.failed) +
          (leftBy pass).countP (fun e => e.2 == i) := by
      rw [leftBy, List.countP_map, List.countP_map,
        List.countP_eq_countP_filter_add pass _ fun t => !t.failed]
      simp only [List.countP_filter, Bool.not_not, Function.comp_apply, Try.entry]
    rw [hpass, ih h, List.flatten_cons, List.countP_append, Nat.add_assoc]

/-- What is tried in a pass has waited from the beginning. -/
lemma InPasses.mem {waiting lost : List (PendingReference σ × Nat)} {passes : List (List (Try σ))}
    (h : InPasses waiting passes lost) : ∀ t ∈ passes.flatten, t.entry ∈ waiting := by
  induction passes generalizing waiting with
  | nil => exact List.forall_mem_nil _
  | cons pass rest ih =>
    obtain ⟨_, rfl, h⟩ := h
    intro t ht
    rcases List.mem_append.1 ht with ht | ht
    · exact List.mem_map_of_mem ht
    · obtain ⟨u, hu, e⟩ := List.mem_map.1 (ih h t ht)
      exact e ▸ List.mem_map_of_mem (List.mem_filter.1 hu).1

lemma countP_zipIdx {α : Type} (l : List α) {i : Nat} (hi : i < l.length) :
    l.zipIdx.countP (fun e => e.2 == i) = 1 := by
  have hcount : l.zipIdx.countP (fun e => e.2 == i) = (l.zipIdx.map (·.2)).count i := by
    rw [List.count_eq_countP, List.countP_map]
    rfl
  rw [hcount, List.zipIdx_map_snd, List.count_eq_one_of_mem (List.nodup_range' ..)]
  simpa [List.mem_range'] using hi

/-- How a scope settles the references that wait in it. -/
structure Settlement (sc : Scope σ) (w w' : World σ) (passes : List (List (Try σ)))
    (lost : List (PendingReference σ × Nat)) : Prop where
  /-- The tries lead from the world before to the world after. -/
  sequence : InSequence w passes.flatten w'
  /-- The first pass tries all references in order, and each further one what is left. -/
  order : InPasses sc.pending.zipIdx passes lost
  limit : passes.length ≤ sc.passes
  queued : ∀ t ∈ passes.flatten, sc.pending[t.place]? = some t.reference
  /-- A reference is found once and its callback told then, or else it is lost once. -/
  once : ∀ i < sc.pending.length,
    passes.flatten.countP (fun t => t.place == i && t.found.isSome) = 1 ∧
        lost.countP (fun e => e.2 == i) = 0 ∨
      passes.flatten.countP (fun t => t.place == i && t.found.isSome) = 0 ∧
        lost.countP (fun e => e.2 == i) = 1
  /-- What is found is of the type that is asked for, and is seen from the nodes that the reference
  has kept. -/
  found : ∀ t ∈ passes.flatten, ∀ h, t.found = some h →
    t.world.store.isA h t.reference.type = true ∧
      Sees t.world.store t.reference.nodes t.reference.path t.reference.type h
  unresolvable : passes.length < sc.passes → Unresolvable w' lost

/-- References that wait are settled: what is found is handed to callbacks and the rest is reported
in the end.  Then nothing waits, and the answer is that nothing had to be reported. -/
theorem resolvePending_settles (sc : Scope σ) (w : World σ) :
    ∃ w' passes lost, Settlement sc w w' passes lost ∧
      sc.resolvePending w =
        ⟨((lost.isEmpty, { sc with pending := [] }), w'),
          passes.flatten.flatMap Try.events ++ lost.map fun e => e.1.unresolved⟩ := by
  obtain ⟨passes, lost, w', hpasses, hlen, hseq, hrun, hend⟩ :=
    exists_passes (min sc.passes sc.pending.length) sc.pending.zipIdx w
  refine ⟨w', passes, lost, ⟨hseq, hpasses, hlen.trans (Nat.min_le_left _ _), ?_, ?_, ?_, ?_⟩, ?_⟩
  · intro t ht
    have h := hpasses.mem t ht
    exact List.mem_zipIdx_iff_getElem?.1 h
  · intro i hi
    have hcount := hpasses.countP_eq i
    rw [countP_zipIdx sc.pending hi] at hcount
    simp only [Try.failed, Option.not_isNone] at hcount
    omega
  · intro t _ h hfound
    have hsees := sees_of_value_lookup hfound
    exact ⟨hsees.isA, hsees⟩
  · intro hlt
    obtain h | ⟨hall, hlost⟩ := hend
    · exact h
    · -- every reference has been found in a pass of its own
      rw [List.length_zipIdx] at hlost
      have hnil : lost = [] := List.length_eq_zero_iff.1 (by omega)
      rw [hnil]
      exact List.forall_mem_nil _
  · have hreport : ∀ (p : PendingReference σ) (w : World σ),
        (Act.error s!"Could not resolve {p.type.name} \"{Text.joinPath p.path}\"" p.location :
          Act σ Unit) w = ⟨((), w), [p.unresolved]⟩ := fun _ _ => rfl
    rw [List.zipIdx_map_fst] at hrun
    rw [resolvePending, Logged.run_bind, hrun]
    simp only [Logged.run_bind, Logged.run_forM_report _ _ _ hreport, Logged.run_pure,
      List.isEmpty_map, List.map_map, List.append_nil]
    rfl

end Scope

end Semdoc
