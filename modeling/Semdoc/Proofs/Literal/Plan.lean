import Semdoc.Proofs.Literal.Passage
import Semdoc.Proofs.Log.Computations

/-!
# Plans of readings

A reading that is defined by recursion, taken apart into what it does by itself and what it calls.  How it
runs depends on how its calls are answered; what it calls on the way can be listed; and a run that answers
every call by running the plan of what is called comes to an end after some number of steps.
-/

namespace Semdoc

/-- What a reading does, with holes for the calls it makes.  Each call has answers of a type of its own. -/
inductive Plan (C : Type) (A : C → Type) : Type → Type 1 where
  | done {α : Type} (a : α) : Plan C A α
  | act {α β : Type} (x : Reading β) (next : β → Plan C A α) : Plan C A α
  | call {α : Type} (c : C) (next : A c → Plan C A α) : Plan C A α
  /-- A plan is tried on a fork. -/
  | attempt {α β : Type} (x : Plan C A (Option β)) (next : Option β → Plan C A α) : Plan C A α

namespace Plan

scoped instance : LawfulMonad Logged :=
  .mk' Logged (fun x => by cases x; exact congrArg _ (List.append_nil _)) (fun _ _ => rfl)
    fun x f g => congrArg (Logged.mk _) (List.append_assoc _ _ _)

variable {C : Type} {A : C → Type} {α β : Type}

/-- Goes on after a plan. -/
protected def bind : {α : Type} → Plan C A α → (α → Plan C A β) → Plan C A β
  | _, done a, g => g a
  | _, act x next, g => act x fun b => (next b).bind g
  | _, call c next, g => call c fun a => (next a).bind g
  | _, attempt x next, g => attempt x fun o => (next o).bind g

instance : Monad (Plan C A) where
  pure := done
  bind := Plan.bind

instance : MonadLift Reading (Plan C A) where
  monadLift x := act x done

/-- Makes a call. -/
def ask (c : C) : Plan C A (A c) := call c done

/-- Tries a plan on a fork. -/
def onFork (x : Plan C A (Option α)) : Plan C A (Option α) := attempt x done

/-- The reading that a plan describes if its calls are answered in some way. -/
def run (f : ∀ c, Reading (A c)) : {α : Type} → Plan C A α → Reading α
  | _, done a => pure a
  | _, act x next => x >>= fun b => (next b).run f
  | _, call c next => f c >>= fun a => (next a).run f
  | _, attempt x next => Reading.attempt (x.run f) >>= fun o => (next o).run f

/-- The calls that a plan makes, each with the reader as it is then. -/
def calls (f : ∀ c, Reading (A c)) : {α : Type} → Plan C A α → CharReader → List (C × CharReader)
  | _, done _, _ => []
  | _, act x next, r => (next (x r).value.1).calls f (x r).value.2
  | _, call c next, r => (c, r) :: (next (f c r).value.1).calls f (f c r).value.2
  | _, attempt x next, r =>
    x.calls f r.fork ++
      (next (Reading.attempt (x.run f) r).value.1).calls f (Reading.attempt (x.run f) r).value.2

/-- What a plan does step by step: the reader before and after each reading, call and attempt in it. -/
def moves (f : ∀ c, Reading (A c)) :
    {α : Type} → Plan C A α → CharReader → List (CharReader × CharReader)
  | _, done _, _ => []
  | _, act x next, r => (r, (x r).value.2) :: (next (x r).value.1).moves f (x r).value.2
  | _, call c next, r => (r, (f c r).value.2) :: (next (f c r).value.1).moves f (f c r).value.2
  | _, attempt x next, r =>
    x.moves f r.fork ++ (r, (Reading.attempt (x.run f) r).value.2) ::
      (next (Reading.attempt (x.run f) r).value.1).moves f (Reading.attempt (x.run f) r).value.2

/-- The calls that running a plan leads to, each with the reader as it is then. -/
inductive Reaches (body : ∀ c, Plan C A (A c)) (f : ∀ c, Reading (A c)) (x : Plan C A α)
    (r : CharReader) : C → CharReader → Prop where
  | here {c : C} {r' : CharReader} (h : (c, r') ∈ x.calls f r) : Reaches body f x r c r'
  | inside {c d : C} {r' r'' : CharReader} (hc : Reaches body f x r c r')
      (h : (d, r'') ∈ (body c).calls f r') : Reaches body f x r d r''

section Run

variable (f : ∀ c, Reading (A c))

@[simp] lemma run_bind (x : Plan C A α) (g : α → Plan C A β) :
    (x >>= g).run f = x.run f >>= fun a => (g a).run f := by
  change (Plan.bind x g).run f = _
  induction x with
  | done a => exact (pure_bind (m := Reading) a fun a => (g a).run f).symm
  | act x next ih => simp only [Plan.bind, run, ih, bind_assoc]
  | call c next ih => simp only [Plan.bind, run, ih, bind_assoc]
  | attempt x next _ ih => simp only [Plan.bind, run, ih, bind_assoc]

@[simp] lemma run_ask (c : C) : (ask c : Plan C A (A c)).run f = f c := bind_pure (f c)

@[simp] lemma run_onFork (x : Plan C A (Option α)) :
    (onFork x).run f = Reading.attempt (x.run f) := bind_pure _

variable {f} in
/-- A plan that begins with a reading. -/
lemma run_act {x : Reading β} {g : β → Plan C A α} {k : β → Reading α}
    (h : ∀ b, (g b).run f = k b) : (liftM x >>= g : Plan C A α).run f = x >>= k := bind_congr h

variable {f} in
/-- A plan that begins with a call. -/
lemma run_call {c : C} {g : A c → Plan C A α} {y : Reading (A c)} {k : A c → Reading α}
    (hc : f c = y) (h : ∀ a, (g a).run f = k a) :
    (ask c >>= g : Plan C A α).run f = y >>= k := hc ▸ bind_congr h

variable {f} in
/-- A plan that begins with another plan. -/
lemma run_then {x : Plan C A β} {g : β → Plan C A α} {y : Reading β} {k : β → Reading α}
    (hx : x.run f = y) (h : ∀ b, (g b).run f = k b) : (x >>= g).run f = y >>= k := by
  rw [run_bind, hx]
  exact bind_congr h

/-- Only the answers to calls that are made matter. -/
lemma run_congr {g : ∀ c, Reading (A c)} (x : Plan C A α) (r : CharReader)
    (h : ∀ y ∈ x.calls f r, g y.1 y.2 = f y.1 y.2) : x.run g r = x.run f r := by
  induction x generalizing r with
  | done a => rfl
  | act x next ih =>
    simp only [run, Logged.run_bind]
    rw [ih _ _ h]
  | call c next ih =>
    obtain ⟨hc, h⟩ := List.forall_mem_cons.1 h
    simp only [run, Logged.run_bind]
    rw [show g c r = f c r from hc, ih _ _ h]
  | attempt x next ihx ih =>
    obtain ⟨hx, h⟩ := List.forall_mem_append.1 h
    have hfork : Reading.attempt (x.run g) r = Reading.attempt (x.run f) r := by
      simp only [Reading.attempt, ihx _ hx]
    simp only [run, Logged.run_bind]
    rw [hfork, ih _ _ h]

end Run

/-! ## Where plans lead -/

/-- What is to be shown of a plan for it to make its calls where `Q` allows them only, and to lead to
what `post` says.  Of a call no more is known than that it does not go back. -/
def Meets (bytes : List UInt8) (Q : C → Progress → Prop) :
    {α : Type} → Plan C A α → Progress → (α → Progress → Prop) → Prop
  | _, done a, p, post => post a p
  | _, act x next, p, post => x.Leads bytes p fun b q => (next b).Meets bytes Q q post
  | _, call c next, p, post =>
    Q c p ∧ ∀ a q, p.read ≤ q.read → q.read ≤ q.peek → q.peek ≤ bytes.length →
      (next a).Meets bytes Q q post
  | _, attempt x next, p, post => x.Meets bytes Q p fun o q =>
    (o.isSome = true → (next o).Meets bytes Q q post) ∧ (o = none → (next none).Meets bytes Q p post)

namespace Meets

variable {bytes : List UInt8} {Q : C → Progress → Prop} {p : Progress} {x : Plan C A α}
  {f : ∀ c, Reading (A c)} {post : α → Progress → Prop}

lemma pure {a : α} (h : post a p) : (Pure.pure a : Plan C A α).Meets bytes Q p post := h

lemma act {x : Reading β} {g : β → Plan C A α}
    (h : x.Leads bytes p fun b q => (g b).Meets bytes Q q post) :
    (liftM x >>= g : Plan C A α).Meets bytes Q p post := h

lemma ask {c : C} {post : A c → Progress → Prop} (hc : Q c p)
    (h : ∀ a q, p.read ≤ q.read → q.read ≤ q.peek → q.peek ≤ bytes.length → post a q) :
    (Plan.ask c : Plan C A (A c)).Meets bytes Q p post := ⟨hc, h⟩

lemma onFork {x : Plan C A (Option α)} {post : Option α → Progress → Prop}
    (h : x.Meets bytes Q p fun o q => (o.isSome = true → post o q) ∧ (o = none → post none p)) :
    (onFork x).Meets bytes Q p post := h

lemma mono {post' : α → Progress → Prop} (h : x.Meets bytes Q p post)
    (hpost : ∀ a q, post a q → post' a q) : x.Meets bytes Q p post' := by
  induction x generalizing p with
  | done a => exact hpost _ _ h
  | act x next ih =>
    exact Reading.Leads.mono h fun b q _ _ _ hb => ih b hb hpost
  | call c next ih => exact ⟨h.1, fun a q h1 h2 h3 => ih a (h.2 a q h1 h2 h3) hpost⟩
  | attempt x next ihx ih =>
    exact ihx h fun o q ho => ⟨fun e => ih o (ho.1 e) hpost, fun e => ih none (ho.2 e) hpost⟩

lemma bind {g : α → Plan C A β} {post : β → Progress → Prop}
    (h : x.Meets bytes Q p fun a q => (g a).Meets bytes Q q post) :
    (x >>= g).Meets bytes Q p post := by
  change (Plan.bind x g).Meets bytes Q p post
  induction x generalizing p with
  | done a => exact h
  | act x next ih => exact Reading.Leads.mono h fun b q _ _ _ hb => ih b hb
  | call c next ih => exact ⟨h.1, fun a q h1 h2 h3 => ih a (h.2 a q h1 h2 h3)⟩
  | attempt x next _ ih =>
    exact Meets.mono (x := x) h fun o q ho => ⟨fun e => ih o (ho.1 e), fun e => ih none (ho.2 e)⟩

/-- A plan that meets its conditions leads where it should, if its calls do not go back. -/
theorem leads (h : x.Meets bytes Q p post)
    (hf : ∀ c q, Q c q → (f c).Leads bytes q fun _ _ => True) : (x.run f).Leads bytes p post := by
  induction x generalizing p with
  | done a => exact .pure h
  | act x next ih => exact .bind (Reading.Leads.mono h fun b q _ _ _ hb => ih b hb)
  | call c next ih =>
    exact .bind ((hf c p h.1).mono fun a q h1 h2 h3 _ => ih a (h.2 a q h1 h3 h2))
  | attempt x next ihx ih =>
    refine .bind (.attempt (ihx (Meets.mono (x := x) h fun o q ho => ⟨fun e => ?_, fun e => ?_⟩)))
    · exact ih o (ho.1 e)
    · exact ih none (ho.2 e)

/-- It then makes its calls where it may. -/
theorem calls (h : x.Meets bytes Q p post)
    (hf : ∀ c q, Q c q → (f c).Leads bytes q fun _ _ => True) {r : CharReader} (hr : r.On bytes p) :
    ∀ y ∈ x.calls f r, ∃ q, y.2.On bytes q ∧ Q y.1 q := by
  induction x generalizing p r with
  | done a => exact fun y hy => nomatch hy
  | act x next ih =>
    obtain ⟨q, hq, -, -, hn⟩ := h r hr
    exact ih _ hn hq
  | call c next ih =>
    obtain ⟨q, hq, -, hle, -⟩ := hf c p h.1 r hr
    refine List.forall_mem_cons.2 ⟨⟨p, hr, h.1⟩, ih _ (h.2 _ q hle hq.le.1 hq.le.2) hq⟩
  | attempt x next ihx ih =>
    have hx : x.Meets bytes Q p _ := h
    have hstep : (Reading.attempt (x.run f)).Leads bytes p fun o q => (next o).Meets bytes Q q post :=
      .attempt (hx.leads hf)
    obtain ⟨q, hq, -, -, hn⟩ := hstep r hr
    exact List.forall_mem_append.2 ⟨ihx hx hr.fork, ih _ hn hq⟩

/-- Step by step it goes further on. -/
theorem moves (h : x.Meets bytes Q p post)
    (hf : ∀ c q, Q c q → (f c).Leads bytes q fun _ _ => True) {r : CharReader} (hr : r.On bytes p) :
    ∀ y ∈ x.moves f r, y.1.offset ≤ y.2.offset := by
  have hstep : ∀ {q q' : Progress} {s s' : CharReader}, s.On bytes q → s'.On bytes q' →
      q.read ≤ q'.read → s.offset ≤ s'.offset := fun hs hs' hle => by rwa [hs.offset, hs'.offset]
  induction x generalizing p r with
  | done a => exact fun y hy => nomatch hy
  | act x next ih =>
    obtain ⟨q, hq, -, hle, hn⟩ := h r hr
    exact List.forall_mem_cons.2 ⟨hstep hr hq hle, ih _ hn hq⟩
  | call c next ih =>
    obtain ⟨q, hq, -, hle, -⟩ := hf c p h.1 r hr
    exact List.forall_mem_cons.2 ⟨hstep hr hq hle, ih _ (h.2 _ q hle hq.le.1 hq.le.2) hq⟩
  | attempt x next ihx ih =>
    have hx : x.Meets bytes Q p _ := h
    have hlead : (Reading.attempt (x.run f)).Leads bytes p fun o q => (next o).Meets bytes Q q post :=
      .attempt (hx.leads hf)
    obtain ⟨q, hq, -, hle, hn⟩ := hlead r hr
    exact List.forall_mem_append.2
      ⟨ihx hx hr.fork, List.forall_mem_cons.2 ⟨hstep hr hq hle, ih _ hn hq⟩⟩

end Meets

/-! ## Runs that end -/

/-- What is left of an attempt on a fork. -/
def settle (r : CharReader) (y : Logged (Option α × CharReader)) : Logged (Option α × CharReader) :=
  match y.value with
  | (some a, fork) => ⟨(some a, fork.commit r), y.events⟩
  | (none, fork) => ⟨(none, fork.discard r), []⟩

/-- Running a plan comes to an end after some number of steps, with a result.  A call is a step, and takes
the steps of the plan of what is called. -/
inductive Ends (body : ∀ c, Plan C A (A c)) :
    {α : Type} → Plan C A α → CharReader → Nat → Logged (α × CharReader) → Prop where
  | done {α : Type} (a : α) (r : CharReader) : Ends body (.done a) r 0 ⟨(a, r), []⟩
  | act {α β : Type} {x : Reading β} {next : β → Plan C A α} {r : CharReader} {n : Nat}
      {z : Logged (α × CharReader)} (h : Ends body (next (x r).value.1) (x r).value.2 n z) :
      Ends body (.act x next) r (n + 1) ⟨z.value, (x r).events ++ z.events⟩
  | call {α : Type} {c : C} {next : A c → Plan C A α} {r : CharReader} {m n : Nat}
      {y : Logged (A c × CharReader)} {z : Logged (α × CharReader)} (hc : Ends body (body c) r m y)
      (h : Ends body (next y.value.1) y.value.2 n z) :
      Ends body (.call c next) r (m + n + 1) ⟨z.value, y.events ++ z.events⟩
  | attempt {α β : Type} {x : Plan C A (Option β)} {next : Option β → Plan C A α} {r : CharReader}
      {m n : Nat} {y : Logged (Option β × CharReader)} {z : Logged (α × CharReader)}
      (hx : Ends body x r.fork m y)
      (h : Ends body (next (settle r y).value.1) (settle r y).value.2 n z) :
      Ends body (.attempt x next) r (m + n + 1) ⟨z.value, (settle r y).events ++ z.events⟩

/-- A run ends if the calls end that it makes, each with the answer that it gets. -/
lemma exists_ends {body : ∀ c, Plan C A (A c)} {f : ∀ c, Reading (A c)} (x : Plan C A α)
    (r : CharReader)
    (h : ∀ y ∈ x.calls f r, ∃ n, Ends body (body y.1) y.2 n (f y.1 y.2)) :
    ∃ n, Ends body x r n (x.run f r) := by
  induction x generalizing r with
  | done a => exact ⟨0, .done a r⟩
  | act x next ih =>
    obtain ⟨n, hn⟩ := ih _ _ h
    exact ⟨n + 1, .act hn⟩
  | call c next ih =>
    obtain ⟨⟨m, hm⟩, h⟩ := List.forall_mem_cons.1 h
    obtain ⟨n, hn⟩ := ih _ _ h
    exact ⟨m + n + 1, .call hm hn⟩
  | attempt x next ihx ih =>
    obtain ⟨hx, h⟩ := List.forall_mem_append.1 h
    obtain ⟨m, hm⟩ := ihx _ hx
    obtain ⟨n, hn⟩ := ih _ _ h
    exact ⟨m + n + 1, .attempt hm hn⟩

/-- A plan has one way to end at most. -/
lemma Ends.unique {body : ∀ c, Plan C A (A c)} {x : Plan C A α} {r : CharReader} {n n' : Nat}
    {z z' : Logged (α × CharReader)} (h : Ends body x r n z) (h' : Ends body x r n' z') :
    n = n' ∧ z = z' := by
  induction h generalizing n' with
  | done a r =>
    cases h'
    exact ⟨rfl, rfl⟩
  | act _ ih =>
    cases h' with
    | act h' =>
      obtain ⟨rfl, rfl⟩ := ih h'
      exact ⟨rfl, rfl⟩
  | call _ _ ihc ih =>
    cases h' with
    | call hc' h' =>
      obtain ⟨rfl, rfl⟩ := ihc hc'
      obtain ⟨rfl, rfl⟩ := ih h'
      exact ⟨rfl, rfl⟩
  | attempt _ _ ihx ih =>
    cases h' with
    | attempt hx' h' =>
      obtain ⟨rfl, rfl⟩ := ihx hx'
      obtain ⟨rfl, rfl⟩ := ih h'
      exact ⟨rfl, rfl⟩

end Plan

end Semdoc
