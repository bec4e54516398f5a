import Reconciliation.Proofs.Scheduler.Decision
import Reconciliation.Scheduler.Engine

/-!
A scheduler at work, one step after another and in any order. The loop over the ready queue
takes a worker before it takes an identity; a dispatch keeps the worker until it ends. Timers
may fire at any time after they were armed, and dispatches may end in any order with any
summary. Clocks, processes and the order of turns are left out: every step that the other
parts of a program can take is possible whenever its own conditions hold.
-/
namespace Reconciliation

/-- A scheduler with the loop over its ready queue and its dispatches. -/
structure Activity where
  scheduler : Scheduler
  loop : ServingLoop := .absent
  /-- The workers that neither the loop nor a dispatch holds. -/
  freeWorkers : Nat
  inFlight : List ResourceId := []
  /-- The dispatches in flight that have crashed and are about to end. -/
  crashed : List ResourceId := []

/-- What can happen to a scheduler at work. -/
inductive Move where
  | submit (id : ResourceId) (cause : TriggerCause) (terminating : Bool)
  | reschedule (id : ResourceId) (delay : Span)
  | fire (t : ArmedTimer)
  | run
  | stop
  | takeWorker
  | begin (request : ReconciliationRequest) (retry : Option RetryInfo)
  | discard (id : ResourceId)
  | crash (id : ResourceId)
  | finish (id : ResourceId) (summary : DispatchSummary)
  | leave
  | conclude

namespace Activity

def fresh (c : SchedulerConfig) : Activity where
  scheduler := { config := c }
  freeWorkers := max c.workers 1

/-- The number of workers that the loop holds. -/
def held (a : Activity) : Nat :=
  match a.loop with
  | .waiting true => 1
  | _ => 0

/-- A timer may fire long after it was replaced or cancelled. A call of the loop is refused
while another one has not returned. Taking an identity from the ready queue either begins a
dispatch, which keeps the worker, or finds the entry stale and gives the worker back. A crashed
dispatch ends with the failure that reports the crash. -/
inductive Step : Activity → Move → Activity → Prop
  | submit (a : Activity) (id : ResourceId) (cause : TriggerCause) (terminating : Bool) :
      Step a (.submit id cause terminating)
        { a with scheduler := a.scheduler.trigger id cause terminating }
  | reschedule (a : Activity) (id : ResourceId) (delay : Span) :
      Step a (.reschedule id delay) { a with scheduler := a.scheduler.reschedule id delay }
  | fire (a : Activity) (t : ArmedTimer) (ht : t ∈ a.scheduler.armed) :
      Step a (.fire t) { a with scheduler := a.scheduler.timerFired t }
  | run (a : Activity) (s : Scheduler) (hs : a.scheduler.run = .ok s) :
      Step a .run { a with scheduler := s, loop := .waiting false }
  | refuse (a : Activity) (e : Error) (hs : a.scheduler.run = .error e) : Step a .run a
  | stop (a : Activity) : Step a .stop { a with scheduler := a.scheduler.stop }
  | takeWorker (a : Activity) (n : Nat) (hl : a.loop = .waiting false)
      (hw : a.freeWorkers = n + 1) :
      Step a .takeWorker { a with loop := .waiting true, freeWorkers := n }
  | begin (a : Activity) (id : ResourceId) (rest : List ResourceId)
      (request : ReconciliationRequest) (retry : Option RetryInfo) (s : Scheduler)
      (hl : a.loop = .waiting true) (hr : a.scheduler.ready = id :: rest)
      (hb : ({ a.scheduler with ready := rest }).begin? id = some ((request, retry), s)) :
      Step a (.begin request retry)
        { a with scheduler := s, loop := .waiting false, inFlight := id :: a.inFlight }
  | discard (a : Activity) (id : ResourceId) (rest : List ResourceId)
      (hl : a.loop = .waiting true) (hr : a.scheduler.ready = id :: rest)
      (hb : ({ a.scheduler with ready := rest }).begin? id = none) :
      Step a (.discard id)
        { a with
          scheduler := { a.scheduler with ready := rest }
          loop := .waiting false
          freeWorkers := a.freeWorkers + 1 }
  | crash (a : Activity) (id : ResourceId) (hf : id ∈ a.inFlight) (hc : id ∉ a.crashed) :
      Step a (.crash id)
        { a with scheduler := a.scheduler.crashed, crashed := id :: a.crashed }
  | finish (a : Activity) (id : ResourceId) (summary : DispatchSummary)
      (hf : id ∈ a.inFlight)
      (hc : id ∈ a.crashed → summary = .failed (.dispatchPanicked id)) :
      Step a (.finish id summary)
        { a with
          scheduler := a.scheduler.finished id summary
          inFlight := a.inFlight.erase id
          crashed := a.crashed.erase id
          freeWorkers := a.freeWorkers + 1 }
  | leave (a : Activity) (holds : Bool) (hl : a.loop = .waiting holds)
      (hs : a.scheduler.stopRequested = true) :
      Step a .leave { a with loop := .draining, freeWorkers := a.freeWorkers + a.held }
  | conclude (a : Activity) (hl : a.loop = .draining) (hf : a.inFlight = []) :
      Step a .conclude { a with scheduler := a.scheduler.ended, loop := .absent }

inductive Trace : Activity → List Move → Activity → Prop
  | nil (a : Activity) : Trace a [] a
  | cons {a b c : Activity} {m : Move} {ms : List Move} :
      Step a m b → Trace b ms c → Trace a (m :: ms) c

/-- The states that a new scheduler can come to. -/
def Reachable (c : SchedulerConfig) (a : Activity) : Prop := ∃ ms, Trace (fresh c) ms a

theorem Trace.preserves {P : Activity → Prop} (hP : ∀ a m b, Step a m b → P a → P b)
    {a b : Activity} {ms : List Move} (h : Trace a ms b) (ha : P a) : P b := by
  induction h with
  | nil a => exact ha
  | cons hstep _ ih => exact ih (hP _ _ _ hstep ha)

theorem Trace.append {a b c : Activity} {ms ms' : List Move} (h : Trace a ms b)
    (h' : Trace b ms' c) : Trace a (ms ++ ms') c := by
  induction h with
  | nil => exact h'
  | cons hstep _ ih => exact .cons hstep (ih h')

theorem Reachable.extend {c : SchedulerConfig} {a b : Activity} {ms : List Move}
    (h : Reachable c a) (htrace : Trace a ms b) : Reachable c b := by
  obtain ⟨before, hbefore⟩ := h
  exact ⟨before ++ ms, hbefore.append htrace⟩

theorem Reachable.preserves {c : SchedulerConfig} {P : Activity → Prop}
    (hP : ∀ a m b, Step a m b → P a → P b) (hfresh : P (fresh c)) {a : Activity}
    (h : Reachable c a) : P a := by
  obtain ⟨ms, htrace⟩ := h
  exact htrace.preserves hP hfresh

end Activity
end Reconciliation
