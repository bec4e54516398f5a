import Reconciliation.Scheduler.Identity
import Reconciliation.Settings.Basic

/-!
The scheduler: which identity is dispatched next, and when it is looked at again.

Triggers of one identity that arrive before its next dispatch are coalesced, and no identity
is handed out while a dispatch of it is in flight. A timer is known by its token; the token in
the state of an identity names the one timer that may still act.
-/
namespace Reconciliation

/-- The limits that a scheduler keeps. -/
structure SchedulerConfig where
  workers : Nat := 10
  /-- `none` switches retries off. -/
  retry : Option RetryPolicy := some {}
  /-- Identities are run again at least this often after a success. -/
  maxInterval : Option Span := none

namespace SchedulerConfig

def ofSettings (s : Settings) : SchedulerConfig where
  workers := max s.workers.toNat 1
  retry := RetryPolicy.ofSettings? s.retry
  maxInterval := s.maxReconciliationInterval

def withWorkers (c : SchedulerConfig) (n : Nat) : SchedulerConfig := { c with workers := max n 1 }

end SchedulerConfig

/-- Counts since the scheduler was made. They are not bounded: runs of 2 ^ 64 steps, in which a
counter of 64 bits starts again, are left out. -/
structure SchedulerStats where
  dispatched : Nat := 0
  succeeded : Nat := 0
  failed : Nat := 0
  conflicts : Nat := 0
  retriesScheduled : Nat := 0
  retriesExhausted : Nat := 0
  panicked : Nat := 0
  finalizersAdded : Nat := 0
  finalizersRemoved : Nat := 0
  deriving DecidableEq

/-- A timer that triggers an identity after a delay. -/
structure ArmedTimer where
  id : ResourceId
  /-- The number of timers armed before it. Runs in which 2 ^ 64 timers are armed, and tokens of
  64 bits come up again, are left out. -/
  token : Nat
  delay : Span
  cause : TriggerCause
  deriving DecidableEq

/-- The state of a scheduler: what it knows of each identity and what waits for a worker. -/
structure Scheduler where
  config : SchedulerConfig
  states : SortedMap ResourceId IdentityState := {}
  /-- The identities to be handed out, the next one first; some entries may be stale. -/
  ready : List ResourceId := []
  /-- Triggers are handed on to the ready queue. -/
  running : Bool := false
  /-- The loop over the ready queue has been asked to stop. -/
  stopRequested : Bool := false
  /-- A loop works on the ready queue. -/
  serving : Bool := false
  /-- All timers ever armed, the newest first. -/
  armed : List ArmedTimer := []
  stats : SchedulerStats := {}

namespace Scheduler

def stateOf? (s : Scheduler) (id : ResourceId) : Option IdentityState := s.states.get? id

/-- The state of an identity, a fresh one if it has none. -/
def stateOf (s : Scheduler) (id : ResourceId) : IdentityState := (s.stateOf? id).getD {}

def put (s : Scheduler) (id : ResourceId) (st : IdentityState) : Scheduler :=
  { s with states := s.states.insert id st }

def drop (s : Scheduler) (id : ResourceId) : Scheduler := { s with states := s.states.erase id }

/-- Stores a state and hands the identity to the ready queue, unless it is there, in flight, or
the scheduler does not run. -/
def enqueue (s : Scheduler) (id : ResourceId) (st : IdentityState) : Scheduler :=
  if s.running && !st.queued && !st.inFlight then
    { s.put id { st with queued := true } with ready := s.ready ++ [id] }
  else s.put id st

/-- Stores a state with a new timer in place of the one it had. -/
def arm (s : Scheduler) (id : ResourceId) (st : IdentityState) (delay : Span)
    (cause : TriggerCause) : Scheduler :=
  let token := s.armed.length
  { s.put id { st with timer := some token } with armed := ⟨id, token, delay, cause⟩ :: s.armed }

/-- The object is gone: its state goes too, at the latest with the dispatch in flight. -/
def triggerDeleted (s : Scheduler) (id : ResourceId) : Scheduler :=
  match s.stateOf? id with
  | none => s
  | some st =>
    if st.inFlight then
      s.put id { st.cancelTimer with event := .deleted }
    else s.drop id

/-- Records a trigger in a state that may ignore it. -/
def record (s : Scheduler) (id : ResourceId) (st : IdentityState) (cause : TriggerCause) :
    Scheduler :=
  if st.acceptsEvents then
    let marked := st.markEvent cause
    if marked.isDispatchable then s.enqueue id marked.cancelTimer else s.put id marked
  else s.put id st

/-- A trigger for an identity. Once a finalizer was removed, triggers of the terminating object
are ignored; any other one stands for a new object. -/
def trigger (s : Scheduler) (id : ResourceId) (cause : TriggerCause) (terminating : Bool) :
    Scheduler :=
  if cause = .deleted then s.triggerDeleted id
  else
    let st := s.stateOf id
    if st.event = .released then
      if terminating then s else s.record id { st with event := .quiet } cause
    else s.record id st cause

/-- Arms the timer of an identity, unless its object is gone. -/
def reschedule (s : Scheduler) (id : ResourceId) (delay : Span) : Scheduler :=
  let st := s.stateOf id
  if st.isDeleted then s else s.arm id st delay .rescheduled

/-- A timer acts only if it is the one that the state names. -/
def timerFired (s : Scheduler) (t : ArmedTimer) : Scheduler :=
  match s.stateOf? t.id with
  | none => s
  | some st =>
    if st.timer = some t.token then
      let st := st.cancelTimer
      if st.acceptsEvents then s.enqueue t.id (st.markEvent t.cause) else s.put t.id st
    else s

/-- Starts a dispatch of an identity from the ready queue; stale entries start nothing. -/
def begin? (s : Scheduler) (id : ResourceId) :
    Option ((ReconciliationRequest × Option RetryInfo) × Scheduler) :=
  match s.stateOf? id with
  | none => none
  | some st =>
    if st.queued && !st.inFlight then
      some ((⟨id, st.causes⟩, st.retry.map RetryProgress.info),
        { s.put id st.begun with stats.dispatched := s.stats.dispatched + 1 })
    else none

/-- Hands out everything that waits. -/
def enqueuePending (s : Scheduler) : Scheduler :=
  s.states.entries.foldl
    (fun s e => if e.2.isDispatchable then s.enqueue e.1 e.2 else s) s

/-- Starts the loop over the ready queue, of which there is one at a time. -/
def run (s : Scheduler) : Except Error Scheduler :=
  if s.serving then .error (.invalidConfig "scheduler is already running")
  else .ok ({ s with serving := true, stopRequested := false, running := true }).enqueuePending

def stop (s : Scheduler) : Scheduler := { s with running := false, stopRequested := true }

def cancelTimers (s : Scheduler) : Scheduler :=
  { s with states := s.states.map fun _ st => st.cancelTimer }

/-- The loop has ended and no dispatch is in flight. -/
def ended (s : Scheduler) : Scheduler := { s.cancelTimers with serving := false }

end Scheduler
end Reconciliation
