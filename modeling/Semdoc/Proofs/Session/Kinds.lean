import Semdoc.Proofs.Session.Marks

/-!
# Kinds in a session

Every node that is owned is of the kind that its slot asks for, and what annotations have as endpoints
are anchors or have been dropped.
-/

namespace Semdoc.Store

/-- Nodes are of the kinds that their places ask for. -/
structure Sorted (s : Store) : Prop where
  fits : ∀ {c : NodeHandle} {home : Home}, s.home? c = some home → s.Fits home.slot c
  issued : ∀ {h a : NodeHandle} {c : Content}, s.content? h = some c → a ∈ c.endpoints → s.Issued a
  anchor : ∀ {h a : NodeHandle} {c : Content}, s.content? h = some c → a ∈ c.endpoints →
    s.contains a = true → s.isA a .anchor = true

namespace SameContents

lemma tellAll (s : Store) (old new : String) (h : NodeHandle) (ls : List Listener) :
    SameContents s (s.tellAll old new h ls) := by
  induction ls generalizing s with
  | nil => exact .refl s
  | cons l r ih => exact (tell s old new h l).trans (ih _)

lemma setName (s : Store) (h : NodeHandle) (name : String) :
    SameContents s (s.setName h name).2 := by
  rw [snd_setName]
  split
  · have hn : SameContents s (s.modify h fun n => { n with name }) := .modify s h fun _ => rfl
    exact (hn.trans (.invalidate _ h)).trans (.tellAll _ _ _ _ _)
  · exact .refl s

lemma addWatcher (s : Store) (h : NodeHandle) : SameContents s (s.addWatcher h).2 := by
  let t := { s with
    watchers := s.watchers ++ [Watcher.mk s.nextWatcher h], nextWatcher := s.nextWatcher + 1 }
  have ht : SameContents s t := .of_cells rfl rfl
  exact ht.trans (.modify t h fun _ => rfl)

lemma removeWatcher (s : Store) (number : Nat) : SameContents s (s.removeWatcher number).2 := by
  unfold Store.removeWatcher
  split
  · exact .refl s
  · let t := { s with watchers := s.watchers.filter (·.number != number) }
    have ht : SameContents s t := .of_cells rfl rfl
    exact ht.trans (.modify t _ fun _ => rfl)

end SameContents

namespace Sorted

variable {s s' : Store}

lemma empty : Sorted {} := by
  refine ⟨fun hc => ?_, fun hc => ?_, fun hc => ?_⟩
  · rw [home?, get?_empty] at hc
    cases hc
  · rw [content?, get?_empty] at hc
    cases hc
  · rw [content?, get?_empty] at hc
    cases hc

/-- Contents stay, and what is owned newly fits its slot. -/
lemma of_sameContents (hs : s.Sorted) (h : SameContents s s')
    (hhome : ∀ c home, s'.home? c = some home → s.home? c = some home ∨ s.Fits home.slot c) :
    s'.Sorted := by
  refine ⟨fun hc => ?_, fun hc ha => ?_, fun hc ha hl => ?_⟩
  · rcases hhome _ _ hc with hc | hc
    · exact h.fits (hs.fits hc)
    · exact h.fits hc
  · rw [h.content?] at hc
    exact (h.issued _).2 (hs.issued hc ha)
  · rw [h.content?] at hc
    rw [contains_eq, h.content?, ← contains_eq] at hl
    rw [h.isA]
    exact hs.anchor hc ha hl

lemma of_quiet (hs : s.Sorted) (h : SameContents s s') (hq : Quiet s s') : s'.Sorted :=
  hs.of_sameContents h fun c home hc => .inl (by rwa [hq.home?] at hc)

lemma of_sameNodes (hs : s.Sorted) (h : SameNodes s s') : s'.Sorted :=
  hs.of_quiet (.of_sameNodes h) (.of_sameNodes h)

/-- A new node is owned by nobody and has no endpoints. -/
lemma create (hs : s.Sorted) (hi : s.Intact) (name : String) {content : Content}
    (he : content.endpoints = []) : (s.create name content).2.Sorted := by
  have hget := hi.get?_create name content
  have hold : ∀ k, s.Issued k → (s.create name content).2.get? k = s.get? k := by
    intro k hk
    rw [hget, if_neg (hi.ne_nextHandle hk)]
  have hcontent : ∀ {h c a}, (s.create name content).2.content? h = some c → a ∈ c.endpoints →
      s.content? h = some c := by
    intro h c a hc ha
    rw [content?, hget] at hc
    split at hc
    · cases hc
      change a ∈ content.endpoints at ha
      rw [he] at ha
      cases ha
    · exact hc
  refine ⟨fun {c home} hc hslot => ?_, fun hc ha => ?_, fun {h a c} hc ha hl => ?_⟩
  · rw [home?, hget] at hc
    split at hc
    · cases hc
    · have hissued : s.Issued c := .of_contains (contains_of_home? hc)
      rw [isA, hold c hissued]
      exact hs.fits hc hslot
  · exact (hs.issued (hcontent hc ha) ha).create hi name content
  · have hc := hcontent hc ha
    have ha' := hold a (hs.issued hc ha)
    rw [contains, ha'] at hl
    rw [isA, ha']
    exact hs.anchor hc ha hl

/-- A node stays of its kind, and only anchors become endpoints. -/
lemma revise (hs : s.Sorted) {h : NodeHandle} {f : Content → Content}
    (hf : ∀ n, s.get? h = some n → s.Revisable n.content (f n.content)) :
    (s.modify h fun n => { n with content := f n.content }).Sorted := by
  have hcontent : ∀ k d, (s.modify h fun n => { n with content := f n.content }).content? k = some d →
      ∃ c, s.content? k = some c ∧ d.tag = c.tag ∧
        ∀ a ∈ d.endpoints, a ∈ c.endpoints ∨ s.isA a .anchor = true := by
    intro k d hd
    rw [content?, get?_modify] at hd
    split at hd
    · next e =>
      subst e
      rw [Option.map_map] at hd
      obtain ⟨n, hn, rfl⟩ := Option.map_eq_some_iff.1 hd
      have hr := hf n hn
      refine ⟨n.content, ?_, hr.tag, hr.endpoints⟩
      rw [content?, hn, Option.map_some]
    · exact ⟨d, hd, rfl, fun a ha => .inl ha⟩
  have hcontains : ∀ k, (s.modify h fun n => { n with content := f n.content }).contains k =
      s.contains k := fun k => contains_modify s h k _
  have hisA : ∀ k type, (s.modify h fun n => { n with content := f n.content }).isA k type =
      s.isA k type := by
    intro k type
    have hl := hcontains k
    rw [contains_eq, contains_eq] at hl
    rw [isA_eq, isA_eq]
    cases hd : (s.modify h fun n => { n with content := f n.content }).content? k with
    | none =>
      rw [hd] at hl
      rw [Option.isNone_iff_eq_none.1 (Option.isSome_eq_false_iff.1 hl.symm)]
    | some d =>
      obtain ⟨c, hc, htag, -⟩ := hcontent k d hd
      rw [hc, Option.map_some, Option.map_some, htag]
  have hhome : ∀ c, (s.modify h fun n => { n with content := f n.content }).home? c = s.home? c := by
    intro c
    rw [home?_modify]
    split
    · next e => rw [e, home?]
    · rfl
  refine ⟨fun hc hslot => ?_, fun hd ha => ?_, fun hd ha hl => ?_⟩
  · rw [hisA]
    rw [hhome] at hc
    exact hs.fits hc hslot
  · obtain ⟨c, hc, -, hends⟩ := hcontent _ _ hd
    rw [issued_modify]
    rcases hends _ ha with ha | ha
    · exact hs.issued hc ha
    · exact .of_contains (contains_of_isA ha)
  · obtain ⟨c, hc, -, hends⟩ := hcontent _ _ hd
    rw [hisA]
    rw [hcontains] at hl
    rcases hends _ ha with ha | ha
    · exact hs.anchor hc ha hl
    · exact ha

/-- Every elementary change keeps a store sorted. -/
theorem change (ho : s.Sorted) (hs : s.Sound) (h : Change s s') : s'.Sorted := by
  cases h with
  | create name content he => exact ho.create hs.intact name he
  | invalidate h => exact ho.of_sameNodes (.invalidate s h)
  | revise h f hf hc => exact ho.revise hf
  | sort h slot last hc =>
    exact ho.of_quiet (.editRoster s h slot _) (.editRoster s h slot fun r => (r.moveLast_perm last).2)
  | remove o slot c =>
    refine ho.of_sameContents (.removeFrom s o slot c) fun k home hk => .inl ?_
    by_cases hc : c ∈ s.held o slot
    · rw [removeFrom_of_mem hc, (SameNodes.invalidate _ o).home?, home?_unlink] at hk
      split at hk
      · cases hk
      · exact hk
    · rwa [removeFrom_of_not_mem hc] at hk
  | enter o slot c ha hl hfit hout =>
    refine ho.of_sameContents ((SameContents.link s o slot c).trans (.invalidate _ o))
      fun k home hk => ?_
    rw [(SameNodes.invalidate _ o).home?, home?_link c k hl] at hk
    split at hk
    · next e =>
      cases hk
      rw [e.1]
      exact .inr hfit
    · split at hk
      · cases hk
      · exact .inl hk
  | rename h name => exact ho.of_quiet (.setName s h name) (.setName s h name)
  | locate h l =>
    exact ho.of_quiet (.modify s h fun _ => rfl)
      (.modify_aside s h (fun _ _ => ⟨rfl, rfl, rfl⟩) (fun _ => rfl) fun _ => ⟨rfl, rfl⟩)
  | watch h => exact ho.of_quiet (.addWatcher s h) (.addWatcher s h)
  | unwatch number => exact ho.of_quiet (.removeWatcher s number) (.removeWatcher s number)
  | root h =>
    unfold addRoot
    split
    · exact ho
    · exact ho.of_sameNodes (.of_cells rfl rfl)
  | unroot h => exact ho.of_sameNodes (.of_cells rfl rfl)

/-- What is dropped is an endpoint no longer, and its handle is not given out again. -/
lemma collect (ho : s.Sorted) : s.collect.2.Sorted := by
  have hcontent : ∀ k, s.collect.2.content? k =
      if k ∈ s.survivors then s.content? k else none := fun k =>
    map_get?_collect (·.content) (fun _ _ => rfl) s k
  have hisA : ∀ k type, k ∈ s.survivors → s.collect.2.isA k type = s.isA k type := by
    intro k type hk
    rw [isA_eq, hcontent, if_pos hk, isA_eq]
  refine ⟨fun {c home} hc hslot => ?_, fun hc ha => ?_, fun {h a c} hc ha hl => ?_⟩
  · rw [home?_collect] at hc
    split at hc
    · next hk =>
      rw [hisA c _ hk]
      exact ho.fits hc hslot
    · cases hc
  · rw [hcontent] at hc
    split at hc
    · exact (ho.issued hc ha).collect
    · cases hc
  · rw [hcontent] at hc
    rw [contains_collect, Bool.and_eq_true, decide_eq_true_eq] at hl
    split at hc
    · rw [hisA a _ hl.1]
      exact ho.anchor hc ha hl.2
    · cases hc

end Sorted

/-- Every store in a session is sorted, also after nodes have been dropped. -/
theorem sorted_after (steps : List SessionStep) : (after steps).Sorted := by
  induction steps using List.reverseRecOn with
  | nil => exact .empty
  | append_singleton steps step ih =>
    rw [after_append]
    have hs := sound_after steps
    cases step with
    | operate op =>
      exact (Changes.keep (fun s s' hs ho h => ho.change hs h) (op.changes hs) hs ih).2
    | validate h => exact ih.of_sameNodes (sameNodes_validate _ h)
    | collect => exact ih.collect

end Semdoc.Store
