import Semdoc.Parse.Stack
import Semdoc.Proofs.Log.Computations
import Semdoc.Proofs.Parse.Lineage
import Semdoc.Proofs.Session.Operation

/-!
# Descents into a scope

Commands begin one inside another on an empty stack of elements, and those that create nodes put one
each on the stack of the scope.  What such a descent leaves is a lineage of the scope, so the command in
which it ends is deduced again from the scope alone.  What was in the scope before must not look as if
a command had created it.
-/

namespace Semdoc

variable {σ : Type}

namespace ElementStack

/-- The registered command that begins with a name. -/
def command? (s : ElementStack σ) (name : String) : Option (CommandId × Command σ) :=
  (s.table.named name).find? fun e => e.2.accepts s.current

variable {s : ElementStack σ} {name : String} {e : CommandId × Command σ}

lemma mem_real_of_command? (h : s.command? name = some e) :
    e ∈ s.table.real ∧ e.2.Admits s.current := by
  have haccepts : e.2.accepts s.current = true :=
    List.find?_some (p := fun e : CommandId × Command σ => e.2.accepts s.current) h
  exact ⟨List.mem_of_mem_filter (List.mem_of_find?_eq_some h), Command.accepts_iff.1 haccepts⟩

lemma target?_of_command? (h : s.command? name = some e) :
    s.target? name = some (e.1, e.2.element.getD Handler.plain) := by
  rw [target?, show (s.table.named name).find? _ = some e from h]

/-- If an element begins then its command is the current one. -/
lemma start_of_command? (h : s.command? name = some e) (args : Entries Value) (l : Location)
    (session : Session σ) (hok : (s.start name args l session).value.1.1.isOk = true) :
    (s.start name args l session).value.1.2.2.table = s.table ∧
      (s.start name args l session).value.1.2.2.current = e.1 := by
  unfold start at hok ⊢
  simp only [target?_of_command? h] at hok ⊢
  split at hok
  · cases hok
  · next hdeep =>
    rw [if_neg hdeep]
    simp only [Logged.run_bind, Logged.run_lift]
    -- whether the handler hears of it makes no difference here
    split <;> exact ⟨rfl, rfl⟩

end ElementStack

/-- A command that has begun, with the node that it has put on the stack of the scope. -/
structure Begun (σ : Type) where
  entry : CommandId × Command σ
  pushed : Option NodeHandle

/-- Whether the command creates nodes. -/
def Begun.isGenerative (b : Begun σ) : Bool := b.entry.2.isGenerative

/-- Registered commands have begun one inside another on an empty stack of elements, the outermost comes
first.  Each that creates nodes has put one on the stack of the scope, and the others none. -/
inductive Descent (t : CommandTable σ) (l : Limits) (before : Session σ) :
    ElementStack σ → Session σ → List (Begun σ) → Prop where
  | empty : Descent t l before (.empty t l) before []
  | start {stack : ElementStack σ} {session : Session σ}
      {line : List (Begun σ)} {b : Begun σ} (name : String) (args : Entries Value) (place : Location)
      (outer : Descent t l before stack session line)
      (registered : stack.command? name = some b.entry)
      (begins : (stack.start name args place session).value.1.1.isOk = true)
      (generative : b.pushed.isSome = b.isGenerative)
      (pushes : (stack.start name args place session).value.2.scope.nodes =
        b.pushed.toList ++ session.scope.nodes) :
      Descent t l before (stack.start name args place session).value.1.2.2
        (stack.start name args place session).value.2 (line ++ [b])

namespace Descent

variable {t : CommandTable σ} {l : Limits} {before session : Session σ} {stack : ElementStack σ}
  {line : List (Begun σ)} {store : Store} {inside : Prop}

/-- The types of what has been put on the stack of the scope. -/
def types (store : Store) (line : List (Begun σ)) :
    List TypeTag :=
  line.flatMap fun b => b.pushed.toList.map store.tag

/-- What is created is of a type that its command creates. -/
def Fits (store : Store) (line : List (Begun σ)) : Prop :=
  ∀ b ∈ line, ∀ n ∈ b.pushed, b.entry.2.mayCreate (store.tag n) = true

/-- The outermost command that creates nodes can begin on an empty stack. -/
def BeginsOutside (line : List (Begun σ)) : Prop :=
  ∀ b ∈ line.find? Begun.isGenerative, b.entry.2.Admits .outside

instance : Decidable (Fits store line) :=
  inferInstanceAs (Decidable (∀ b ∈ line, ∀ n ∈ b.pushed, b.entry.2.mayCreate (store.tag n) = true))

instance : Decidable (BeginsOutside line) :=
  inferInstanceAs (Decidable (∀ b ∈ line.find? Begun.isGenerative,
    .outside ∈ b.entry.2.parents ∨ .anywhere ∈ b.entry.2.parents))

lemma table_eq (h : Descent t l before stack session line) : stack.table = t := by
  induction h with
  | empty => rfl
  | start name args place _ registered begins _ _ ih =>
    exact (ElementStack.start_of_command? registered args place _ begins).1.trans ih

lemma signature_eq (h : Descent t l before stack session line) (store : Store) :
    session.scope.signature store = before.scope.signature store ++ types store line := by
  induction h with
  | empty => simp [types]
  | @start _ _ line b _ _ _ _ _ _ _ pushes ih =>
    have hone : (b.pushed.toList.map store.tag).reverse = b.pushed.toList.map store.tag := by
      cases b.pushed <;> rfl
    rw [Scope.signature, pushes, List.map_append, List.reverse_append, ← Scope.signature, ih, hone,
      types, types, List.flatMap_append, List.flatMap_singleton, List.append_assoc]

/-- As soon as something has been put on the stack of the scope there is a lineage of it. -/
lemma lineage (h : Descent t l before stack session line) (hfits : Fits store line)
    (hout : inside → BeginsOutside line) :
    (∀ b ∈ line, b.isGenerative = false) ∧ types store line = [] ∨
      t.EndsIn inside (types store line) stack.current := by
  induction h with
  | empty => exact .inl ⟨List.forall_mem_nil _, rfl⟩
  | @start stack session line b name args place outer registered begins generative _ ih =>
    have htypes : types store (line ++ [b]) = types store line ++ b.pushed.toList.map store.tag := by
      simp [types]
    obtain ⟨hreal, hadm⟩ := ElementStack.mem_real_of_command? registered
    rw [outer.table_eq] at hreal
    have hcreate : ∀ n ∈ b.pushed, b.entry.2.mayCreate (store.tag n) = true :=
      hfits b List.mem_concat_self
    have hout' : inside → BeginsOutside line := fun hin o ho =>
      hout hin o (by rw [List.find?_append, Option.mem_def.1 ho, Option.some_or, Option.mem_def])
    rw [(ElementStack.start_of_command? registered args place session begins).2, htypes]
    rcases ih (fun o ho => hfits o (List.mem_append_left _ ho)) hout' with
      ⟨hnone, hnil⟩ | ⟨chain, c, hl⟩
    · rw [hnil, List.nil_append]
      cases hb : b.pushed with
      | none =>
        rw [hb] at generative
        refine .inl ⟨fun o ho => ?_, rfl⟩
        rcases List.mem_append.1 ho with ho | ho
        · exact hnone o ho
        · rw [List.mem_singleton.1 ho, ← generative]
          rfl
      | some n =>
        rw [hb] at generative
        -- this is the outermost command that creates nodes
        have hfirst : (line ++ [b]).find? Begun.isGenerative = some b := by
          rw [List.find?_append, List.find?_eq_none.2 fun o ho => by simp [hnone o ho], Option.none_or,
            List.find?_cons_of_pos generative.symm]
        exact .inr ⟨[], b.entry.2, CommandTable.lineage_singleton_iff.2
          ⟨hreal, fun hin => hout hin b hfirst, _, rfl, hcreate n hb⟩⟩
    · refine .inr ⟨_, b.entry.2, CommandTable.lineage_append_iff.2 ⟨_, _, rfl, hl, hreal, hadm, ?_⟩⟩
      cases hb : b.pushed with
      | none =>
        rw [hb] at generative
        exact .selects generative.symm
      | some n => exact .creates (hcreate n hb)

end Descent

/-- What was in the scope before is ambient if no command creates its types. -/
lemma CommandTable.ambient_append {t : CommandTable σ} {inside : Prop} {outer types : List TypeTag}
    {line : List (CommandId × Command σ)}
    (houter : ∀ type ∈ outer, ∀ e ∈ t.real, e.2.mayCreate type = false)
    (h : t.Lineage inside types line) : t.ambient (outer ++ types) = outer.length := by
  have hcreated : ∃ type rest, types = type :: rest ∧ ∃ e ∈ t.real, e.2.mayCreate type = true := by
    cases hc : line.filter (·.2.isGenerative) with
    | nil => exact absurd (List.forall₂_nil_left_iff.1 (hc ▸ h.creates)) h.ne_nil
    | cons e _ =>
      obtain ⟨type, rest, hcreate, -, heq⟩ := List.forall₂_cons_left_iff.1 (hc ▸ h.creates)
      have he : e ∈ line.filter (·.2.isGenerative) := hc ▸ List.mem_cons_self
      exact ⟨type, rest, heq, e, h.real e (List.mem_of_mem_filter he), hcreate⟩
  obtain ⟨type, rest, rfl, e, he, hcreate⟩ := hcreated
  have hall : ∀ type ∈ outer, (!t.real.any fun e => e.2.mayCreate type) = true := by
    intro type htype
    rw [Bool.not_eq_true', List.any_eq_false]
    intro e he
    rw [houter type htype e he]
    exact Bool.false_ne_true
  rw [ambient, List.takeWhile_append_of_pos hall, List.takeWhile_cons_of_neg, List.append_nil]
  rw [Bool.not_eq_true', Bool.not_eq_false]
  exact List.any_eq_true.2 ⟨e, he, hcreate⟩

section Deduced

variable {t : CommandTable σ} {l : Limits} {before session : Session σ} {stack : ElementStack σ}
  {line : List (Begun σ)}

/-- The command in which a descent ends is among those that are deduced for its scope. -/
theorem current_mem_deduce (h : Descent t l before stack session line)
    (hfits : Descent.Fits session.world.store line)
    (hpush : before.scope.depth < session.scope.depth)
    (hbefore : ∀ type ∈ before.scope.signature session.world.store, ∀ e ∈ t.real,
      e.2.mayCreate type = false)
    (hout : before.scope.nodes = [] ∨ Descent.BeginsOutside line) :
    stack.current ∈ t.deduce (session.scope.signature session.world.store) := by
  set store := session.world.store
  have hlen : (before.scope.signature store).length = before.scope.depth := by
    simp [Scope.signature, Scope.depth]
  have hin : 0 < (before.scope.signature store).length → Descent.BeginsOutside line := by
    intro hpos
    refine hout.resolve_left fun hnil => ?_
    rw [Scope.signature, hnil] at hpos
    exact Nat.lt_irrefl 0 hpos
  have hsig := h.signature_eq store
  rcases h.lineage hfits hin with ⟨-, hnil⟩ | hends
  · -- nothing would have been put on the stack
    have hdepth := congrArg List.length hsig
    rw [hnil, List.append_nil, hlen, Scope.signature, List.length_reverse, List.length_map] at hdepth
    exact absurd hpush (by simp only [Scope.depth] at hdepth ⊢; omega)
  · obtain ⟨chain, c, hl⟩ := hends
    have hambient := CommandTable.ambient_append hbefore hl
    rw [CommandTable.mem_deduce_iff, hsig, hambient, List.drop_left]
    exact ⟨chain, c, hl⟩

end Deduced

/-! ## Descents into an ontology -/

/-- A project with an ontology and a class. -/
def ontologySession : List SessionStep :=
  [.operate .createProject, .operate (.createProjectOntology ⟨6, 1⟩ "o"),
    .operate (.createClass ⟨7, 1⟩ "c" .any none false true)]

/-- A session in which a node of that project is in the scope. -/
def openedIn (h : NodeHandle) : Session Unit where
  world := ⟨.after ontologySession, ()⟩
  scope := (Scope.empty {}).push h
  project := ⟨6, 1⟩

/-- A handler that puts a node on the stack of the scope. -/
def putting (h : NodeHandle) : HandlerMaker Unit := fun e =>
  { Handler.plain e with
    start := fun args => do
      modify fun session => { session with scope := session.scope.push h }
      return (true, args) }

/-- Ontologies are begun on the empty stack.  What they hold is introduced by a command that creates
nothing. -/
def ontologyCommands : CommandTable Unit where
  commands :=
    [{ name := "$none" }, { name := "$all" },
      { name := "ontology", parents := [⟨0⟩], creates := [.ontology], element := some (putting ⟨7, 1⟩) },
      { name := "content", parents := [⟨2⟩] },
      { name := "struct", parents := [⟨3⟩], creates := [.structuredClass],
        element := some (putting ⟨8, 1⟩) }]

theorem current_mem_deduce_struct :
    ∃ stack session line, Descent ontologyCommands {} (openedIn ⟨6, 1⟩) stack session line ∧
      stack.current = ⟨4⟩ ∧
      session.scope.signature session.world.store = [.project, .ontology, .structuredClass] ∧
      stack.current ∈ ontologyCommands.deduce (session.scope.signature session.world.store) := by
  have h : Descent ontologyCommands {} (openedIn ⟨6, 1⟩) _ _ _ := .empty
  have h := Descent.start (b := ⟨ontologyCommands.real[0], some ⟨7, 1⟩⟩) "ontology" [] .unknown h
    rfl rfl rfl (by decide +kernel)
  have h := Descent.start (b := ⟨ontologyCommands.real[1], none⟩) "content" [] .unknown h
    rfl rfl rfl (by decide +kernel)
  have h := Descent.start (b := ⟨ontologyCommands.real[2], some ⟨8, 1⟩⟩) "struct" [] .unknown h
    rfl rfl rfl (by decide +kernel)
  exact ⟨_, _, _, h, by decide +kernel, by decide +kernel,
    current_mem_deduce h (by decide +kernel) (by decide +kernel) (by decide +kernel)
      (.inr (by decide +kernel))⟩

/-- What begins on the empty stack creates nothing or a class.  Ontologies are begun under the former. -/
def detachedCommands : CommandTable Unit where
  commands :=
    [{ name := "$none" }, { name := "$all" }, { name := "content", parents := [⟨0⟩] },
      { name := "ontology", parents := [⟨2⟩], creates := [.ontology], element := some (putting ⟨7, 1⟩) },
      { name := "struct", parents := [⟨0⟩], creates := [.structuredClass],
        element := some (putting ⟨8, 1⟩) }]

/-- Inside a project an ontology is not deduced that was begun under what creates nothing.  Inside an
ontology a class is not deduced that was begun as if there were none. -/
theorem current_not_mem_deduce_detached :
    (∃ stack session line, Descent detachedCommands {} (openedIn ⟨6, 1⟩) stack session line ∧
      Descent.Fits session.world.store line ∧ 1 < session.scope.depth ∧
      session.scope.signature session.world.store = [.project, .ontology] ∧
      stack.current ∉ detachedCommands.deduce (session.scope.signature session.world.store)) ∧
    ∃ stack session line, Descent detachedCommands {} (openedIn ⟨7, 1⟩) stack session line ∧
      Descent.Fits session.world.store line ∧ 1 < session.scope.depth ∧
      session.scope.signature session.world.store = [.ontology, .structuredClass] ∧
      stack.current ∉ detachedCommands.deduce (session.scope.signature session.world.store) := by
  constructor
  · have h : Descent detachedCommands {} (openedIn ⟨6, 1⟩) _ _ _ := .empty
    have h := Descent.start (b := ⟨detachedCommands.real[0], none⟩) "content" [] .unknown h
      rfl rfl rfl (by decide +kernel)
    have h := Descent.start (b := ⟨detachedCommands.real[1], some ⟨7, 1⟩⟩) "ontology" [] .unknown h
      rfl rfl rfl (by decide +kernel)
    exact ⟨_, _, _, h, by decide +kernel, by decide +kernel, by decide +kernel, by decide +kernel⟩
  · have h : Descent detachedCommands {} (openedIn ⟨7, 1⟩) _ _ _ := .empty
    have h := Descent.start (b := ⟨detachedCommands.real[2], some ⟨8, 1⟩⟩) "struct" [] .unknown h
      rfl rfl rfl (by decide +kernel)
    exact ⟨_, _, _, h, by decide +kernel, by decide +kernel, by decide +kernel, by decide +kernel⟩

end Semdoc
