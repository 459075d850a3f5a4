import Semdoc.Proofs.Session.Ties

/-!
# Anchors and annotations

Binding an anchor writes both sides of a tie, but takes back only one side of what was tied before: an
annotation goes on to name an anchor that has been bound to another one, and an anchor that an endpoint
leaves belongs to nothing, whatever else names it.  The bindings that a session has made say where the
two sides agree.
-/

namespace Semdoc

open Edit

/-- An anchor becomes an endpoint of an annotation. -/
structure Binding where
  mark : NodeHandle
  anchor : NodeHandle
  which : Endpoint
  deriving DecidableEq

/-- The bindings that an operation makes, in order.  Creating an annotation stops at an endpoint that is no
anchor. -/
def Operation.bindings (s : Store) : Operation → List Binding
  | bindAnchor mark anchor which =>
    if s.isA anchor .anchor && s.isA mark .annotationEntity then [⟨mark, anchor, which⟩] else []
  | createAnnotation document descriptor _ start stop _ =>
    if s.isA descriptor .annotationClass && s.isA document .document then
      (start.toList.map (Binding.mk s.nextHandle · .start) ++
        stop.toList.map (Binding.mk s.nextHandle · .stop)).takeWhile fun b => s.isA b.anchor .anchor
    else []
  | _ => []

/-- The bindings that a step of a session makes. -/
def SessionStep.bindings (s : Store) : SessionStep → List Binding
  | operate op => op.bindings s
  | _ => []

/-- The bindings that some steps make, beginning with a store. -/
def Store.bindings (s : Store) : List SessionStep → List Binding
  | [] => []
  | step :: rest => step.bindings s ++ bindings (step.run s) rest

/-- The anchor that was bound last to an endpoint of an annotation. -/
def lastBound (bs : List Binding) (mark : NodeHandle) (which : Endpoint) : Option NodeHandle :=
  (bs.filter fun b => b.mark = mark ∧ b.which = which).getLast?.map (·.anchor)

/-- A binding that comes after some others takes an anchor from an annotation: it binds the anchor to
another one, or moves an endpoint, of whichever annotation, from the anchor to another anchor. -/
def Binding.Takes (b : Binding) (before : List Binding) (mark x : NodeHandle) : Prop :=
  b.anchor = x ∧ b.mark ≠ mark ∨ b.anchor ≠ x ∧ lastBound before b.mark b.which = some x

/-- An anchor was taken from an annotation and has not been bound to it again. -/
def Parted (bs : List Binding) (mark x : NodeHandle) : Prop :=
  ∃ before b since, bs = before ++ b :: since ∧ b.Takes before mark x ∧
    ∀ c ∈ since, ¬ (c.mark = mark ∧ c.anchor = x)

section Histories

variable {bs : List Binding} {b : Binding} {mark x : NodeHandle}

lemma lastBound_append (bs : List Binding) (b : Binding) (mark : NodeHandle) (which : Endpoint) :
    lastBound (bs ++ [b]) mark which =
      if mark = b.mark ∧ which = b.which then some b.anchor else lastBound bs mark which := by
  unfold lastBound
  rw [List.filter_append]
  by_cases h : b.mark = mark ∧ b.which = which
  · rw [List.filter_cons_of_pos (by simpa using h), if_pos ⟨h.1.symm, h.2.symm⟩]
    simp
  · rw [List.filter_cons_of_neg (by simpa using h), if_neg fun e => h ⟨e.1.symm, e.2.symm⟩]
    simp

lemma parted_append :
    Parted (bs ++ [b]) mark x ↔
      b.Takes bs mark x ∨ Parted bs mark x ∧ ¬ (b.mark = mark ∧ b.anchor = x) := by
  constructor
  · rintro ⟨before, c, since, h, htakes, hsince⟩
    rcases List.eq_nil_or_concat since with rfl | ⟨rest, d, rfl⟩
    · obtain ⟨rfl, e⟩ := List.append_inj' h rfl
      cases e
      exact .inl htakes
    · rw [List.concat_eq_append, ← List.cons_append, ← List.append_assoc] at h
      rw [List.concat_eq_append] at hsince
      obtain ⟨rfl, e⟩ := List.append_inj' h rfl
      cases e
      refine .inr ⟨⟨before, c, rest, rfl, htakes, fun d hd => ?_⟩, ?_⟩
      · exact hsince d (List.mem_append_left _ hd)
      · exact hsince b (List.mem_append_right _ List.mem_cons_self)
  · rintro (htakes | ⟨⟨before, c, since, rfl, htakes, hsince⟩, hb⟩)
    · exact ⟨bs, b, [], rfl, htakes, nofun⟩
    · refine ⟨before, c, since ++ [b], by simp, htakes, fun d hd => ?_⟩
      rcases List.mem_append.1 hd with hd | hd
      · exact hsince d hd
      · rw [List.mem_singleton.1 hd]
        exact hb

end Histories

namespace Store

variable {s t u : Store} {bs cs : List Binding}

/-! ## One binding -/

/-- The effect of a binding on the ties. -/
structure Ties (s : Store) (b : Binding) (t : Store) : Prop where
  endpoint? : ∀ mark which, t.endpoint? mark which =
    if mark = b.mark ∧ which = b.which then some b.anchor else s.endpoint? mark which
  anchorAnnotation? : ∀ x, t.anchorAnnotation? x =
    if x = b.anchor then some b.mark
    else if s.endpoint? b.mark b.which = some x then none
    else s.anchorAnnotation? x

/-- Some bindings are made one after the other, with nothing between them that matters to the ties. -/
inductive Performs : Store → List Binding → Store → Prop where
  | none {s t : Store} (h : SameTies s t) : Performs s [] t
  | one {s t : Store} {b : Binding} (h : Ties s b t) : Performs s [b] t
  | append {s t u : Store} {bs cs : List Binding} (h : Performs s bs t) (h' : Performs t cs u) :
    Performs s (bs ++ cs) u

/-- The ties are what some bindings come to. -/
structure Follows (s : Store) (bs : List Binding) : Prop where
  endpoint? : ∀ mark which, s.endpoint? mark which = lastBound bs mark which
  anchorAnnotation? : ∀ mark x,
    s.anchorAnnotation? x = some mark ↔ s.Names mark x ∧ ¬ Parted bs mark x

namespace Follows

lemma of_sameTies (hs : s.Follows bs) (h : SameTies s t) : t.Follows bs := by
  refine ⟨fun mark which => ?_, fun mark x => ?_⟩
  · rw [h.endpoint?, hs.endpoint?]
  · rw [h.anchorAnnotation?, hs.anchorAnnotation?]
    simp only [Names, h.endpoint?]

/-- One binding more.  The annotation and the anchor are tied, and the anchor is taken from all others; an
anchor that the endpoint leaves is taken from everything; all other ties stay. -/
lemma of_ties {b : Binding} (hs : s.Follows bs) (h : Ties s b t) : t.Follows (bs ++ [b]) := by
  refine ⟨fun mark which => ?_, fun mark x => ?_⟩
  · rw [h.endpoint?, lastBound_append, hs.endpoint?]
  rw [h.anchorAnnotation?, parted_append, Binding.Takes, ← hs.endpoint?]
  by_cases hx : x = b.anchor
  · rw [if_pos hx, Option.some.injEq]
    constructor
    · rintro rfl
      refine ⟨⟨b.which, ?_⟩, ?_⟩
      · rw [h.endpoint?, if_pos ⟨rfl, rfl⟩, hx]
      · rintro ((⟨-, hne⟩ | ⟨hne, -⟩) | ⟨-, hne⟩)
        · exact hne rfl
        · exact hne hx.symm
        · exact hne ⟨rfl, hx.symm⟩
    · rintro ⟨-, hn⟩
      by_contra hne
      exact hn (.inl (.inl ⟨hx.symm, hne⟩))
  · have hx' : b.anchor ≠ x := fun e => hx e.symm
    rw [if_neg hx]
    by_cases he : s.endpoint? b.mark b.which = some x
    · rw [if_pos he]
      exact iff_of_false nofun fun hn => hn.2 (.inl (.inr ⟨hx', he⟩))
    · rw [if_neg he, hs.anchorAnnotation?]
      have hnames : t.Names mark x ↔ s.Names mark x := by
        refine exists_congr fun which => ?_
        rw [h.endpoint?]
        split
        · next e =>
          rw [e.1, e.2]
          exact iff_of_false (fun e => hx' (Option.some.inj e)) he
        · rfl
      simp [hnames, hx', he]

lemma of_performs (h : Performs s bs t) (hs : s.Follows cs) : t.Follows (cs ++ bs) := by
  induction h generalizing cs with
  | none h =>
    rw [List.append_nil]
    exact hs.of_sameTies h
  | one h => exact hs.of_ties h
  | append _ _ ih ih' =>
    rw [← List.append_assoc]
    exact ih' (ih hs)

end Follows

/-! ## The binding of an anchor -/

lemma modify_congr {h : NodeHandle} {f g : Node → Node}
    (hfg : ∀ n, s.get? h = some n → f n = g n) : s.modify h f = s.modify h g := by
  unfold modify
  cases hn : s.get? h with
  | none => rfl
  | some n =>
    dsimp only
    rw [hfg n hn]

/-- A store in which an anchor belongs to something else. -/
def reanchored (s : Store) (x : NodeHandle) (mark : Option NodeHandle) : Store :=
  (s.invalidate x).modify x fun n => { n with content := anchored mark n.content }

/-- A store in which an annotation has another anchor at an endpoint, without telling the anchors. -/
def repointed (s : Store) (b : Binding) : Store :=
  (s.invalidate b.mark).modify b.mark fun n => { n with content := n.content.repointed b.which b.anchor }

/-- A store in which an anchor is bound, and the one that was there before belongs to nothing. -/
def tied (s : Store) (b : Binding) : Store :=
  ((((s.endpoint? b.mark b.which).filter (· ≠ b.anchor)).elim (s.repointed b)
    fun p => (s.repointed b).reanchored p none)).reanchored b.anchor (some b.mark)

lemma content?_reanchored (s : Store) (x k : NodeHandle) (mark : Option NodeHandle) :
    (s.reanchored x mark).content? k =
      if k = x then (s.content? x).map (anchored mark) else s.content? k := by
  rw [reanchored, content?_modify, (SameContents.invalidate s x).content?,
    (SameContents.invalidate s x).content?]

lemma content?_repointed (s : Store) (b : Binding) (k : NodeHandle) :
    (s.repointed b).content? k =
      if k = b.mark then (s.content? b.mark).map (Content.repointed b.which b.anchor)
      else s.content? k := by
  rw [repointed, content?_modify, (SameContents.invalidate s b.mark).content?,
    (SameContents.invalidate s b.mark).content?]

lemma isA_reanchored (s : Store) (x : NodeHandle) (mark : Option NodeHandle) (k : NodeHandle)
    (type : TypeTag) : (s.reanchored x mark).isA k type = s.isA k type := by
  rw [isA_eq, content?_reanchored, isA_eq]
  split
  · next e =>
    rw [e]
    cases s.content? x <;> simp [Content.tag_anchored]
  · rfl

lemma isA_repointed (s : Store) (b : Binding) (k : NodeHandle) (type : TypeTag) :
    (s.repointed b).isA k type = s.isA k type := by
  rw [isA_eq, content?_repointed, isA_eq]
  split
  · next e =>
    rw [e]
    cases s.content? b.mark <;> simp [Content.tag_repointed]
  · rfl

lemma isA_tied (s : Store) (b : Binding) (k : NodeHandle) (type : TypeTag) :
    (s.tied b).isA k type = s.isA k type := by
  rw [tied, isA_reanchored]
  cases (s.endpoint? b.mark b.which).filter (· ≠ b.anchor) with
  | none => exact isA_repointed s b k type
  | some p => exact (isA_reanchored _ p none k type).trans (isA_repointed s b k type)

lemma endpoint?_reanchored (s : Store) (x : NodeHandle) (mark : Option NodeHandle)
    (k : NodeHandle) (which : Endpoint) :
    (s.reanchored x mark).endpoint? k which = s.endpoint? k which := by
  rw [endpoint?_eq, content?_reanchored, endpoint?_eq]
  split
  · next e =>
    rw [e]
    cases s.content? x <;> simp [Content.endpoint?_anchored]
  · rfl

lemma anchorAnnotation?_reanchored_none (s : Store) (x k : NodeHandle) :
    (s.reanchored x none).anchorAnnotation? k =
      if k = x then none else s.anchorAnnotation? k := by
  rw [anchorAnnotation?_eq, content?_reanchored, anchorAnnotation?_eq]
  split
  · cases s.content? x <;> simp [Content.mark?_anchored_none]
  · rfl

lemma anchorAnnotation?_reanchored {x : NodeHandle} (hx : s.isA x .anchor = true)
    (mark : Option NodeHandle) (k : NodeHandle) :
    (s.reanchored x mark).anchorAnnotation? k =
      if k = x then mark else s.anchorAnnotation? k := by
  obtain ⟨c, hc, ht⟩ := (isA_iff_content? (by decide)).1 hx
  rw [anchorAnnotation?_eq, content?_reanchored, anchorAnnotation?_eq]
  split
  · rw [hc, Option.map_some, Option.bind_some, Content.mark?_anchored ht]
  · rfl

lemma anchorAnnotation?_repointed (s : Store) (b : Binding) (k : NodeHandle) :
    (s.repointed b).anchorAnnotation? k = s.anchorAnnotation? k := by
  rw [anchorAnnotation?_eq, content?_repointed, anchorAnnotation?_eq]
  split
  · next e =>
    rw [e]
    cases s.content? b.mark <;> simp [Content.mark?_repointed]
  · rfl

lemma endpoint?_repointed {b : Binding} (hb : s.isA b.mark .annotationEntity = true)
    (k : NodeHandle) (which : Endpoint) :
    (s.repointed b).endpoint? k which =
      if k = b.mark ∧ which = b.which then some b.anchor else s.endpoint? k which := by
  obtain ⟨c, hc, ht⟩ := (isA_iff_content? (by decide)).1 hb
  rw [endpoint?_eq, content?_repointed, endpoint?_eq]
  by_cases hk : k = b.mark
  · rw [if_pos hk, hk, hc, Option.map_some, Option.bind_some, Content.endpoint?_repointed ht]
    simp
  · rw [if_neg hk, if_neg fun e => hk e.1]

lemma ties_tied {b : Binding} (ha : s.isA b.anchor .anchor = true)
    (hm : s.isA b.mark .annotationEntity = true) : Ties s b (s.tied b) := by
  have ha' : (s.repointed b).isA b.anchor .anchor = true := by rwa [isA_repointed]
  unfold tied
  cases hp : (s.endpoint? b.mark b.which).filter (· ≠ b.anchor) with
  | none =>
    refine ⟨fun k which => ?_, fun x => ?_⟩
    · rw [Option.elim_none, endpoint?_reanchored, endpoint?_repointed hm]
    · rw [Option.elim_none, anchorAnnotation?_reanchored ha', anchorAnnotation?_repointed]
      split
      · rfl
      · next hx =>
        rw [if_neg]
        intro e
        simp [e, hx] at hp
  | some p =>
    obtain ⟨he, hne⟩ := Option.filter_eq_some_iff.1 hp
    refine ⟨fun k which => ?_, fun x => ?_⟩
    · rw [Option.elim_some, endpoint?_reanchored, endpoint?_reanchored, endpoint?_repointed hm]
    · rw [Option.elim_some, anchorAnnotation?_reanchored (by rwa [isA_reanchored]),
        anchorAnnotation?_reanchored_none, anchorAnnotation?_repointed, he]
      simp only [Option.some.injEq, eq_comm]

end Store

namespace Edit

open Store

lemma reviseAnchor_apply (x : NodeHandle) (mark : Option NodeHandle) (s : Store) :
    (reviseAnchor x mark).apply s = (.ok (), s.reanchored x mark) := by
  refine congrArg (Prod.mk _) (modify_congr fun n _ => ?_)
  cases hc : n.content <;> simp only [anchored] <;> rw [← hc]

/-- The demand for an annotation when an endpoint is changed. -/
lemma revise_repointed_apply (b : Binding) (f : Content → Option Content)
    (hf : ∀ c, f c = if c.tag = .annotationEntity then some (c.repointed b.which b.anchor) else none)
    (s : Store) :
    (revise b.mark .annotationExpected f).apply s =
      if s.isA b.mark .annotationEntity then (.ok (), s.repointed b)
      else (.error .annotationExpected, s.invalidate b.mark) := by
  have hi := SameContents.invalidate s b.mark
  rw [revise_apply, hi.content?, isA_eq]
  cases hc : s.content? b.mark with
  | none => simp
  | some c =>
    have hn : ∀ n, (s.invalidate b.mark).get? b.mark = some n → n.content = c := fun n hn => by
      have e := hi.content? b.mark
      rw [hc, content?, hn, Option.map_some] at e
      exact Option.some.inj e
    simp only [Option.bind_some, hf, Option.map_some, Option.getD_some,
      TypeTag.isA_iff_eq (u := .annotationEntity) (by decide)]
    by_cases ht : c.tag = .annotationEntity
    · rw [if_pos ht, if_pos ht]
      exact congrArg (Prod.mk _) (modify_congr fun n h => by rw [hn n h])
    · rw [if_neg ht, if_neg ht]

/-- When an annotation takes an anchor, the one that was there before belongs to nothing. -/
lemma retie_apply (b : Binding) (s : Store) :
    (do
      if let some p := s.endpoint? b.mark b.which then
        if p != b.anchor then reviseAnchor p none
      reviseAnchor b.anchor (some b.mark) : Edit Unit).apply (s.repointed b) =
        (.ok (), s.tied b) := by
  unfold tied
  cases s.endpoint? b.mark b.which with
  | none => exact reviseAnchor_apply b.anchor (some b.mark) _
  | some p =>
    by_cases hp : p = b.anchor
    · simp [hp, Option.filter, reviseAnchor_apply]
    · simp [hp, Option.filter, apply_bind, reviseAnchor_apply]

/-- An anchor is bound if it is one and the annotation is one. -/
lemma bindAnchor_apply (mark anchor : NodeHandle) (which : Endpoint) (s : Store) :
    (bindAnchor mark anchor which).apply s =
      if s.isA anchor .anchor then
        if s.isA mark .annotationEntity then (.ok (), s.tied ⟨mark, anchor, which⟩)
        else (.error .annotationExpected, s.invalidate mark)
      else (.error .endpointNotAnAnchor, s) := by
  unfold bindAnchor
  rw [get_bind_apply]
  cases ha : s.isA anchor .anchor with
  | false => rfl
  | true =>
    rw [if_neg (by simp), if_pos rfl]
    dsimp only
    rw [apply_bind, revise_repointed_apply ⟨mark, anchor, which⟩]
    · cases hm : s.isA mark .annotationEntity with
      | false => rfl
      | true =>
        rw [if_pos rfl, if_pos rfl]
        exact retie_apply ⟨mark, anchor, which⟩ s
    · intro c
      cases c with
      | annotationEntity e start stop => cases which <;> rfl
      | typesystem b => cases b <;> rfl
      | type shape => cases shape <;> rfl
      | _ => rfl

lemma bindAnchor_of_isA {mark : NodeHandle} {s : Store} (hm : s.isA mark .annotationEntity = true)
    (anchor : NodeHandle) (which : Endpoint) :
    (bindAnchor mark anchor which).apply s =
      if s.isA anchor .anchor then (.ok (), s.tied ⟨mark, anchor, which⟩)
      else (.error .endpointNotAnAnchor, s) := by
  rw [bindAnchor_apply, hm, if_pos rfl]

end Edit

namespace Store

open Edit

variable {s t : Store} {bs : List Binding}

lemma performs_bindAnchor (mark anchor : NodeHandle) (which : Endpoint) (s : Store) :
    Performs s ((Operation.bindAnchor mark anchor which).bindings s)
      ((bindAnchor mark anchor which).apply s).2 := by
  rw [bindAnchor_apply, Operation.bindings]
  cases ha : s.isA anchor .anchor with
  | false => exact .none (.refl s)
  | true =>
    cases hm : s.isA mark .annotationEntity with
    | false => exact .none (.of_sameContents (.invalidate s mark))
    | true => exact .one (ties_tied ha hm)

/-- The endpoints of an annotation are bound one after the other, up to one that is no anchor. -/
lemma performs_ends {h : NodeHandle} (hh : s.isA h .annotationEntity = true)
    (start stop : Option NodeHandle) :
    Performs s
      ((start.toList.map (Binding.mk h · .start) ++ stop.toList.map (Binding.mk h · .stop)).takeWhile
        fun b => s.isA b.anchor .anchor)
      ((do
        if let some anchor := start then bindAnchor h anchor .start
        if let some anchor := stop then bindAnchor h anchor .stop
        return h : Edit NodeHandle).apply s).2 := by
  cases start with
  | none =>
    cases stop with
    | none => exact .none (.refl s)
    | some y =>
      dsimp only
      rw [apply_bind, bindAnchor_of_isA hh]
      cases hy : s.isA y .anchor with
      | false => simpa [hy] using Performs.none (.refl s)
      | true => simpa [hy] using Performs.one (ties_tied (b := ⟨h, y, .stop⟩) hy hh)
  | some x =>
    dsimp only
    rw [apply_bind, bindAnchor_of_isA hh]
    cases hx : s.isA x .anchor with
    | false => simpa [hx] using Performs.none (.refl s)
    | true =>
      have hfirst := Performs.one (ties_tied (b := ⟨h, x, .start⟩) hx hh)
      cases stop with
      | none => simpa [hx] using hfirst
      | some y =>
        have hh' : (s.tied ⟨h, x, .start⟩).isA h .annotationEntity = true := by rwa [isA_tied]
        simp only [if_true]
        rw [apply_bind, bindAnchor_of_isA hh', isA_tied]
        cases hy : s.isA y .anchor with
        | false => simpa [hx, hy] using hfirst
        | true =>
          have hsecond := Performs.one (ties_tied (b := ⟨h, y, .stop⟩)
            (s := s.tied ⟨h, x, .start⟩) (by rwa [isA_tied]) hh')
          simpa [hx, hy] using hfirst.append hsecond

lemma performs_createAnnotation (hs : s.Sound) (document descriptor : NodeHandle)
    (attributes : Option Value) (start stop : Option NodeHandle) (name : String) :
    Performs s
      (( Operation.createAnnotation document descriptor attributes start stop name).bindings s)
      (( createAnnotation document descriptor attributes start stop name).apply s).2 := by
  unfold createAnnotation
  rw [get_bind_apply, Operation.bindings]
  cases hd : s.isA descriptor .annotationClass with
  | false => exact .none (.refl s)
  | true =>
    generalize hc : Content.annotationEntity
      { descriptor, attributes := attributes.getD (.map []) } none none = content
    have hties : Content.SameTies .document content := by
      rw [← hc]
      exact ⟨rfl, funext fun which => by cases which <;> rfl⟩
    have hcreate := sameTies_create hs.intact name hties
    have hdoc := accepts_documentAnnotations hs.shaped document
    simp only [Bool.not_true, Bool.false_eq_true, if_false, Bool.true_and]
    rw [apply_bind]
    rcases createIn_cases hs document .documentAnnotations rfl name content with
      ⟨ha, e⟩ | ⟨hn, fault, e⟩
    · rw [e, hdoc.1 ha, if_pos rfl]
      have hh : (s.grown document .documentAnnotations name content).isA s.nextHandle
          .annotationEntity = true := by
        rw [isA_grown hs.intact, if_pos rfl, ← hc]
        exact TypeTag.isA_self _
      -- the new annotation is no anchor, and is not live before
      have hanchor : ∀ k, (s.grown document .documentAnnotations name content).isA k .anchor =
          s.isA k .anchor := by
        intro k
        rw [isA_grown hs.intact]
        split
        · next e =>
          rw [e, isA_nextHandle hs.intact, ← hc]
          exact (by decide +kernel : TypeTag.annotationEntity.isA .anchor = false)
        · rfl
      have hends := performs_ends hh start stop
      simp only [hanchor] at hends
      have hplace := SameContents.place (s.create name content).2 document .documentAnnotations
        s.nextHandle
      have hall := (Performs.none (hcreate.trans (.of_sameContents hplace))).append hends
      rwa [List.nil_append] at hall
    · rw [e, if_neg fun h => hn (hdoc.2 h)]
      exact .none hcreate

/-- Every operation performs its bindings. -/
lemma performs_operation (hs : s.Sound) (op : Operation) :
    Performs s (op.bindings s) (op.run s) := by
  have hnone : ∀ {α : Type} {e : Edit α}, e.Unbinding → Performs s [] (e.apply s).2 :=
    fun h => .none (h s hs.intact).2
  cases op with
  | bindAnchor mark anchor which => exact performs_bindAnchor mark anchor which s
  | createAnnotation d descriptor attributes start stop name =>
    exact performs_createAnnotation hs d descriptor attributes start stop name
  | createProject => exact hnone unbinding_createProject
  | createProjectDocument p name => exact hnone (unbinding_createProjectDocument p name)
  | createProjectOntology p name => exact hnone (unbinding_createProjectOntology p name)
  | createProjectTypesystem p name => exact hnone (unbinding_createProjectTypesystem p name)
  | createTypesystem name => exact hnone (unbinding_create _ ⟨rfl, rfl⟩)
  | createSystemTypesystem => exact hnone unbinding_createSystemTypesystem
  | createType ts name shape => exact hnone (unbinding_createIn _ _ _ ⟨rfl, rfl⟩)
  | createEnumerationType ts name constants =>
    exact hnone (e := createType ts name _) (unbinding_createIn _ _ _ ⟨rfl, rfl⟩)
  | createArrayType ts inner => exact hnone (unbinding_createArrayType ts inner)
  | createStructType ts name => exact hnone (unbinding_createIn _ _ _ ⟨rfl, rfl⟩)
  | createAttribute struct name type substitute =>
    exact hnone (unbinding_createIn _ _ _ ⟨rfl, rfl⟩)
  | setStructParent type parent => exact hnone (unbinding_setStructParent type parent)
  | addTypesystemInclude ts included => exact hnone (unbinding_attach _ _ _)
  | createOntology name => exact hnone (unbinding_create _ ⟨rfl, rfl⟩)
  | createClass o name cardinality superclass transparent root =>
    exact hnone (unbinding_createClass _ _ _ _ _ _)
  | createAnnotationClass o name =>
    exact hnone (.bind (unbinding_createIn _ _ _ ⟨rfl, rfl⟩) fun h =>
      .bind (unbinding_createIn _ _ _ ⟨rfl, rfl⟩) fun _ => .pure h)
  | createField d type name optional primitiveType => exact hnone (unbinding_createField _ _ _ _ _)
  | addField d field => exact hnone (unbinding_addField d field)
  | moveField d field => exact hnone (unbinding_moveField d field)
  | addChildClass field h => exact hnone (unbinding_addChildClass field h)
  | setSuperclass h superclass => exact hnone (unbinding_setSuperclass h superclass)
  | setCardinality h cardinality => exact hnone (unbinding_reviseClass _ _)
  | setTransparent h transparent => exact hnone (unbinding_reviseClass _ _)
  | setRoot h root => exact hnone (unbinding_reviseClass _ _)
  | setShortToken h token => exact hnone (unbinding_reviseClass _ _)
  | setStartToken h token => exact hnone (unbinding_reviseTokens _ _)
  | setStopToken h token => exact hnone (unbinding_reviseTokens _ _)
  | setFieldType field type => exact hnone (unbinding_setFieldType field type)
  | setFieldOptional field optional => exact hnone (unbinding_reviseField _ _)
  | setFieldWhitespace field whitespace => exact hnone (unbinding_reviseField _ _)
  | addOntologyDependency o dependency => exact hnone (unbinding_attach _ _ _)
  | addOntologyTypesystem o ts => exact hnone (unbinding_attach _ _ _)
  | registerOntologyTokens o r => exact .none (sameTies_registerOntologyTokens s o r)
  | createDocument name => exact hnone (unbinding_create _ ⟨rfl, rfl⟩)
  | addDocumentOntology d o => exact hnone (unbinding_attach _ _ _)
  | addDocumentTypesystem d ts => exact hnone (unbinding_attach _ _ _)
  | createRoot d descriptor attributes name => exact hnone (unbinding_createRoot _ _ _ _)
  | createChild parent descriptor attributes field name =>
    exact hnone (unbinding_createChild _ _ _ _ _)
  | createPrimitive parent v field => exact hnone (unbinding_createPrimitive parent v field)
  | createAnchor parent field => exact hnone (unbinding_createAnchor parent field)
  | addStructureNode entity h number => exact hnone (unbinding_addStructureNode entity h number)
  | removeStructureNode h => exact .none (.of_sameContents (sameContents_removeStructureNode s h))
  | setAttributes entity attributes => exact hnone (unbinding_setAttributes entity attributes)
  | prepareAttributesOf entity => exact .none (sameTies_prepareAttributesOf hs.intact entity)
  | setName h name => exact .none (.of_sameContents (.setName s h name))
  | setLocation h l => exact .none (.of_sameContents (.modify s h fun _ => rfl))
  | addWatcher h => exact .none (.of_sameContents (.addWatcher s h))
  | removeWatcher number => exact .none (.of_sameContents (.removeWatcher s number))
  | addRoot h => exact .none (.of_sameContents (sameContents_addRoot s h))
  | removeRoot h => exact .none (.of_sameContents (.of_cells rfl rfl))
  | invalidate h => exact .none (.of_sameContents (.invalidate s h))

/-- Steps without dropping perform their bindings. -/
lemma Follows.of_steps {steps : List SessionStep} (hsteps : SessionStep.collect ∉ steps)
    (hs : s.Sound) (hf : s.Follows bs) :
    (steps.foldl SessionStep.run s).Follows (bs ++ s.bindings steps) := by
  induction steps generalizing s bs with
  | nil =>
    rw [Store.bindings, List.append_nil]
    exact hf
  | cons step rest ih =>
    obtain ⟨hstep, hrest⟩ := not_or.1 (List.mem_cons.not.1 hsteps)
    rw [Store.bindings, ← List.append_assoc]
    cases step with
    | operate op => exact ih hrest (hs.changes (op.changes hs)) (hf.of_performs (performs_operation hs op))
    | validate h =>
      have hm := sameNodes_validate s h
      refine ih hrest (hs.of_quiet (.of_sameNodes hm)) ?_
      rw [show SessionStep.bindings s (.validate h) = [] from rfl, List.append_nil]
      exact hf.of_sameTies (.of_sameContents (.of_sameNodes hm))
    | collect => exact (hstep rfl).elim

lemma follows_empty : Follows {} [] := by
  have hc : ∀ k, ({} : Store).content? k = none := fun k => by rw [content?, get?_empty]; rfl
  refine ⟨fun mark which => ?_, fun mark x => ?_⟩
  · rw [endpoint?_eq, hc]
    rfl
  · simp [Names, anchorAnnotation?_eq, endpoint?_eq, hc]

/-- As long as no nodes are dropped, the endpoints of an annotation are the anchors that were bound last to
them, and an anchor belongs to an annotation exactly if an endpoint of the annotation is at the anchor and
no later binding has taken the anchor from it. -/
theorem anchorAnnotation?_iff_names (steps : List SessionStep)
    (hsteps : SessionStep.collect ∉ steps) (mark x : NodeHandle) :
    (∀ which, (after steps).endpoint? mark which =
      lastBound (Store.bindings {} steps) mark which) ∧
    ((after steps).anchorAnnotation? x = some mark ↔
      ((after steps).endpoint? mark .start = some x ∨ (after steps).endpoint? mark .stop = some x) ∧
        ¬ Parted (Store.bindings {} steps) mark x) := by
  have h := follows_empty.of_steps hsteps .empty
  rw [List.nil_append] at h
  refine ⟨h.endpoint? mark, ?_⟩
  rw [show after steps = steps.foldl SessionStep.run {} from rfl, h.anchorAnnotation?]
  have hnames : (steps.foldl SessionStep.run {}).Names mark x ↔
      (steps.foldl SessionStep.run {}).endpoint? mark .start = some x ∨
        (steps.foldl SessionStep.run {}).endpoint? mark .stop = some x := by
    constructor
    · rintro ⟨_ | _, hw⟩
      · exact .inl hw
      · exact .inr hw
    · rintro (hw | hw)
      · exact ⟨_, hw⟩
      · exact ⟨_, hw⟩
  rw [hnames]

/-- A session that makes a document whose root can hold anchors, with two anchors and an annotation class,
and goes on with some operations. -/
def anchorSession (ops : List Operation) : List SessionStep :=
  List.map SessionStep.operate <| [.createOntology "o", .createClass ⟨1, 1⟩ "c" .any none false true,
    .createField ⟨2, 1⟩ .tree "" false none, .createAnnotationClass ⟨1, 1⟩ "m",
    .createDocument "d", .createRoot ⟨7, 1⟩ ⟨2, 1⟩ none "", .createAnchor ⟨8, 1⟩ "",
    .createAnchor ⟨8, 1⟩ ""] ++ ops

/-- Two annotations start at the first anchor. -/
def overtakenSession : List SessionStep :=
  anchorSession [ Operation.createAnnotation ⟨7, 1⟩ ⟨5, 1⟩ none (some ⟨9, 1⟩) none "",
    Operation.createAnnotation ⟨7, 1⟩ ⟨5, 1⟩ none (some ⟨9, 1⟩) (some ⟨10, 1⟩) ""]

/-- The anchor belongs to the second annotation, and has been taken from the first one, which goes on to
name it. -/
theorem anchorAnnotation?_iff_names_overtakenSession :
    SessionStep.collect ∉ overtakenSession ∧
      (after overtakenSession).endpoint? ⟨11, 1⟩ .start = some ⟨9, 1⟩ ∧
      (after overtakenSession).anchorAnnotation? ⟨9, 1⟩ = some ⟨12, 1⟩ ∧
      Parted (Store.bindings {} overtakenSession) ⟨11, 1⟩ ⟨9, 1⟩ := by
  have hsteps : SessionStep.collect ∉ overtakenSession := by simp [overtakenSession, anchorSession]
  have hstart : (after overtakenSession).endpoint? ⟨11, 1⟩ .start = some ⟨9, 1⟩ := by decide +kernel
  have hmark : (after overtakenSession).anchorAnnotation? ⟨9, 1⟩ = some ⟨12, 1⟩ := by decide +kernel
  refine ⟨hsteps, hstart, hmark, ?_⟩
  by_contra hn
  have h := (anchorAnnotation?_iff_names overtakenSession hsteps ⟨11, 1⟩ ⟨9, 1⟩).2.2
    ⟨.inl hstart, hn⟩
  rw [hmark] at h
  cases h

/-- An annotation starts and ends at the first anchor, and then its start moves to the second one. -/
def leavingSession : List SessionStep :=
  anchorSession [ Operation.createAnnotation ⟨7, 1⟩ ⟨5, 1⟩ none (some ⟨9, 1⟩) (some ⟨9, 1⟩) "",
    .bindAnchor ⟨11, 1⟩ ⟨10, 1⟩ .start]

/-- The annotation still ends at the first anchor, which belongs to nothing. -/
theorem endpoint?_not_anchorAnnotation?_leavingSession :
    SessionStep.collect ∉ leavingSession ∧
      (after leavingSession).endpoint? ⟨11, 1⟩ .stop = some ⟨9, 1⟩ ∧
      (after leavingSession).anchorAnnotation? ⟨9, 1⟩ ≠ some ⟨11, 1⟩ := by
  refine ⟨by simp [leavingSession, anchorSession], ?_, ?_⟩ <;> decide +kernel

end Store

end Semdoc
