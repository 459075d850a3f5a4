import Mathlib.Tactic.Lemma
import Semdoc.Log.Sink

/-!
# Forks of a ledger

Forks stand one above the other on a ledger, and what is reported goes to the innermost of them.  When all
of them are committed the ledger is what it would be if it had been told everything at once, and had been
taken back to where a fork began whenever the fork was purged.  Default locations come out right although
they are filled in late, since events are replayed one by one and in order.
-/

namespace Semdoc

/-- What is done with a ledger and its forks. -/
inductive LogStep where
  | tell (e : LogEvent)
  | fail (f : Failure)
  | fork
  | commit
  | purge

/-- What the innermost receiver is told in a step. -/
def LogStep.events : LogStep → List LogEvent
  | tell e => [e]
  | fail f => (Logged.failure f).events
  | fork | commit | purge => []

/-- A receiver with forks above it, the innermost first. -/
abbrev LogStack := List LogSink

namespace LogStack

/-- Tells the innermost receiver of some events. -/
def tell (events : List LogEvent) : LogStack → LogStack
  | [] => []
  | top :: rest => top.recordAll events :: rest

/-- Ends the innermost fork and replays it on the receiver below. -/
def commit : LogStack → LogStack
  | .fork f :: below :: rest => below.commit f :: rest
  | s => s

/-- Forgets what the innermost fork holds back. -/
def purge : LogStack → LogStack
  | .fork f :: rest => .fork f.purge :: rest
  | s => s

def step (s : LogStack) : LogStep → LogStack
  | .tell e => s.tell [e]
  | .fail f => s.tell (Logged.failure f).events
  | .fork => .fork {} :: s
  | .commit => s.commit
  | .purge => s.purge

def perform (s : LogStack) (steps : List LogStep) : LogStack :=
  steps.foldl step s

lemma perform_append (s : LogStack) (xs ys : List LogStep) :
    s.perform (xs ++ ys) = (s.perform xs).perform ys := List.foldl_append

end LogStack

/-- A ledger that is told everything at once.  It is remembered what it was when the open forks began, the
innermost first. -/
structure DirectLog where
  ledger : Ledger
  saved : List Ledger := []

namespace DirectLog

/-- A purge takes the ledger back to where the innermost fork began. -/
def step (d : DirectLog) : LogStep → DirectLog
  | .tell e => { d with ledger := d.ledger.record e }
  | .fail f => { d with ledger := d.ledger.recordAll (Logged.failure f).events }
  | .fork => { d with saved := d.ledger :: d.saved }
  | .commit => { d with saved := d.saved.tail }
  | .purge => { d with ledger := d.saved.head?.getD d.ledger }

def perform (d : DirectLog) (steps : List LogStep) : DirectLog :=
  steps.foldl step d

/-- Without purges the ledger takes in all events in order. -/
lemma ledger_perform (d : DirectLog) {steps : List LogStep} (h : .purge ∉ steps) :
    (d.perform steps).ledger = d.ledger.recordAll (steps.flatMap LogStep.events) := by
  induction steps generalizing d with
  | nil => rfl
  | cons x rest ih =>
    rw [List.mem_cons, not_or] at h
    have hrest := ih (d.step x) h.2
    have hfirst : (d.step x).ledger = d.ledger.recordAll x.events := by
      cases x with
      | tell | fail | fork | commit => rfl
      | purge => exact absurd rfl h.1
    rw [List.flatMap_cons, Ledger.recordAll, List.foldl_append, ← Ledger.recordAll, ← Ledger.recordAll,
      ← hfirst]
    exact hrest

end DirectLog

/-! ## What receivers keep -/

namespace LogSink

lemma recordAll_ledger (l : Ledger) (events : List LogEvent) :
    (ledger l).recordAll events = ledger (l.recordAll events) := by
  induction events generalizing l with
  | nil => rfl
  | cons e rest ih => exact ih (l.record e)

lemma recordAll_fork (f : LogFork) (events : List LogEvent) :
    (fork f).recordAll events = fork ⟨events.reverse ++ f.held⟩ := by
  induction events generalizing f with
  | nil => rfl
  | cons e rest ih =>
    rw [List.reverse_cons, List.append_assoc]
    exact ih (f.record e)

end LogSink

/-- The ledger that a stack of forks stands for, and those that it stood for when the forks began.  Above
each fork the ledger has taken in what the fork holds back. -/
inductive LogStack.Stands : LogStack → Ledger → List Ledger → Prop where
  | ledger (l : Ledger) : Stands [.ledger l] l []
  | fork {s : LogStack} {l : Ledger} {saved : List Ledger} (f : LogFork) :
      Stands s l saved → Stands (.fork f :: s) (l.recordAll f.events) (l :: saved)

namespace LogStack

variable {s : LogStack} {l : Ledger} {saved : List Ledger}

namespace Stands

lemma length_eq (h : s.Stands l saved) : s.length = saved.length + 1 := by
  induction h with
  | ledger => rfl
  | fork _ _ ih => rw [List.length_cons, List.length_cons, ih]

lemma tell (h : s.Stands l saved) (events : List LogEvent) :
    (s.tell events).Stands (l.recordAll events) saved := by
  cases h with
  | ledger =>
    rw [LogStack.tell, LogSink.recordAll_ledger]
    apply Stands.ledger
  | @fork s l saved f h =>
    have hevents : (⟨events.reverse ++ f.held⟩ : LogFork).events = f.events ++ events := by
      rw [LogFork.events, List.reverse_append, List.reverse_reverse]
      rfl
    have hrecord : (l.recordAll f.events).recordAll events = l.recordAll (f.events ++ events) :=
      List.foldl_append.symm
    rw [LogStack.tell, LogSink.recordAll_fork, hrecord, ← hevents]
    exact h.fork _

/-- A fork that is committed leaves the ledger that has been stood for. -/
lemma commit (h : s.Stands l saved) : s.commit.Stands l saved.tail := by
  cases h with
  | ledger l => exact .ledger l
  | @fork s l saved f h =>
    have hcommit : LogStack.commit (.fork f :: s) = s.tell f.events := by
      cases s with
      | nil => cases h
      | cons => rfl
    rw [hcommit]
    exact h.tell f.events

lemma purge (h : s.Stands l saved) : s.purge.Stands (saved.head?.getD l) saved := by
  cases h with
  | ledger l => exact .ledger l
  | fork f h => exact h.fork {}

/-- In every step a stack of forks goes on to stand for the ledger that is told directly. -/
lemma step (h : s.Stands l saved) (x : LogStep) :
    (s.step x).Stands ((⟨l, saved⟩ : DirectLog).step x).ledger ((⟨l, saved⟩ : DirectLog).step x).saved := by
  cases x with
  | tell e => exact h.tell [e]
  | fail f => exact h.tell _
  | fork => exact h.fork {}
  | commit => exact h.commit
  | purge => exact h.purge

lemma perform {d : DirectLog} (h : s.Stands d.ledger d.saved) (steps : List LogStep) :
    (s.perform steps).Stands (d.perform steps).ledger (d.perform steps).saved := by
  induction steps generalizing s d with
  | nil => exact h
  | cons x rest ih =>
    apply ih
    exact h.step x

/-- When all forks are committed, the ledger is left that has been stood for. -/
lemma commitAll (h : s.Stands l saved) :
    s.perform (List.replicate s.length .commit) = [.ledger l] := by
  rw [h.length_eq]
  induction saved generalizing s with
  | nil =>
    cases h
    rfl
  | cons p saved ih =>
    rw [List.length_cons, List.replicate_succ]
    apply ih
    exact h.commit

end Stands

end LogStack

/-! ## Purges -/

/-- What is done within a fork: it is not ended, and the forks that are made in it are ended in it. -/
inductive WithinFork : List LogStep → Prop where
  | nil : WithinFork []
  | tell (e : LogEvent) {rest : List LogStep} : WithinFork rest → WithinFork (.tell e :: rest)
  | fail (f : Failure) {rest : List LogStep} : WithinFork rest → WithinFork (.fail f :: rest)
  | purge {rest : List LogStep} : WithinFork rest → WithinFork (.purge :: rest)
  | fork {inner rest : List LogStep} :
      WithinFork inner → WithinFork rest → WithinFork (.fork :: inner ++ .commit :: rest)

namespace LogStack

/-- What is done within a fork changes nothing below it. -/
lemma exists_perform_fork {work : List LogStep} (h : WithinFork work) (f : LogFork) (s : LogStack) :
    ∃ g, perform (.fork f :: s) work = .fork g :: s := by
  induction h generalizing f s with
  | nil => exact ⟨f, rfl⟩
  | tell e _ ih => exact ih (f.record e) s
  | fail x _ ih =>
    obtain ⟨g, hg⟩ := ih ⟨(Logged.failure x).events.reverse ++ f.held⟩ s
    refine ⟨g, Eq.trans ?_ hg⟩
    rw [← LogSink.recordAll_fork]
    rfl
  | purge _ ih => exact ih f.purge s
  | @fork inner rest _ _ ihInner ihRest =>
    obtain ⟨g, hg⟩ := ihInner {} (.fork f :: s)
    obtain ⟨k, hk⟩ := ihRest ⟨g.events.reverse ++ f.held⟩ s
    have hcommit : (LogStack.perform (.fork {} :: .fork f :: s) inner).commit =
        .fork ⟨g.events.reverse ++ f.held⟩ :: s := by
      rw [hg, ← LogSink.recordAll_fork]
      rfl
    refine ⟨k, Eq.trans ?_ hk⟩
    rw [← hcommit]
    exact perform_append _ inner (.commit :: rest)

lemma perform_fork_purge {work : List LogStep} (h : WithinFork work) (s : LogStack) :
    s.perform (.fork :: work ++ [.purge]) = .fork {} :: s := by
  obtain ⟨g, hg⟩ := exists_perform_fork h {} s
  have hwork : s.perform (.fork :: work) = .fork g :: s := hg
  rw [perform_append, hwork]
  rfl

/-- When a fork that has been purged is committed, nothing is left of it. -/
lemma perform_fork_purge_commit {work : List LogStep} (h : WithinFork work) {s : LogStack} (hs : s ≠ []) :
    s.perform (.fork :: work ++ [.purge, .commit]) = s := by
  have hsplit : LogStep.fork :: work ++ [.purge, .commit] = (.fork :: work ++ [.purge]) ++ [.commit] := by
    simp
  rw [hsplit, perform_append, perform_fork_purge h]
  cases s with
  | nil => exact absurd rfl hs
  | cons => rfl

end LogStack

/-- Whatever is reported to a ledger and its forks, when all forks are committed the ledger is what it would
be if it had been told directly.  If no fork has been purged then it has taken in all events in order.  A
fork that is purged leaves what is below it as if nothing had been done since it began. -/
theorem forks_follow_direct_log (l : Ledger) (steps : List LogStep) :
    let s : LogStack := LogStack.perform [.ledger l] steps
    let direct := (DirectLog.perform { ledger := l } steps).ledger
    s.perform (List.replicate s.length .commit) = [.ledger direct] ∧
    (.purge ∉ steps → direct = l.recordAll (steps.flatMap LogStep.events)) ∧
    ∀ work, WithinFork work →
      s.perform (.fork :: work ++ [.purge]) = .fork {} :: s ∧
      s.perform (.fork :: work ++ [.purge, .commit]) = s := by
  intro s direct
  have hstands : s.Stands direct (DirectLog.perform { ledger := l } steps).saved :=
    LogStack.Stands.perform (d := { ledger := l }) (.ledger l) steps
  have hs : s ≠ [] := by
    intro hnil
    have hlength := hstands.length_eq
    rw [hnil] at hlength
    cases hlength
  refine ⟨hstands.commitAll, ?_, ?_⟩
  · intro hpurge
    exact DirectLog.ledger_perform { ledger := l } hpurge
  · intro work hwork
    exact ⟨LogStack.perform_fork_purge hwork s, LogStack.perform_fork_purge_commit hwork hs⟩

/-- The default location of a message is set in a fork whose first step is to drop that of the ledger. -/
theorem forks_follow_direct_log_droppedLocation :
    let l : Ledger := { threshold := .warning, locations := [.point 0 3] }
    let note : Message := { severity := .note, text := "note" }
    let late : Message := { severity := .error, text := "late" }
    let steps : List LogStep := [.fork, .tell .popLocation, .tell (.setLocation (.point 0 7)), .fork,
      .tell (.message note), .tell (.message late)]
    let work : List LogStep := [.fork, .tell .popLocation, .commit, .fail default]
    let s : LogStack := LogStack.perform [.ledger l] steps
    .purge ∉ steps ∧ WithinFork work ∧
    s.perform (List.replicate 3 .commit) =
      [.ledger { l with stored := [{ late with location := .point 0 7 }]
                        counts := { note := 1, error := 1 }
                        locations := [.point 0 7] }] ∧
    s.perform (.fork :: work ++ [.purge, .commit]) = s := by
  intro l note late steps work s
  have hpurge : .purge ∉ steps := by simp [steps]
  have hwork : WithinFork work := .fork (.tell _ .nil) (.fail _ .nil)
  obtain ⟨hcommit, hdirect, hwithin⟩ := forks_follow_direct_log l steps
  rw [hdirect hpurge] at hcommit
  exact ⟨hpurge, hwork, hcommit, (hwithin work hwork).2⟩

end Semdoc
