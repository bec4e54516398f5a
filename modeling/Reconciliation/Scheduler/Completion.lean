import Reconciliation.Dispatch.Verdict
import Reconciliation.Scheduler.Basic

/-!
What follows the end of a dispatch.

A failure is followed by a dispatch at once, by one after a delay, or by none until a new
trigger; a success by one after the delay that it asks for, or else after the interval of the
scheduler. An event that came in meanwhile always leads to a dispatch at once.
-/
namespace Reconciliation.Scheduler

/-- A crash counts on its own and then as a failure. -/
def crashed (s : Scheduler) : Scheduler := { s with stats.panicked := s.stats.panicked + 1 }

def failureRecord (e : Error) (c : FailureClass) (attempts : UInt32) (terminal : Bool) :
    FailureRecord :=
  ⟨e.message, c, attempts, terminal⟩

def afterConflict (s : Scheduler) (id : ResourceId) (st : IdentityState) : Scheduler :=
  ({ s with stats.conflicts := s.stats.conflicts + 1 }).enqueue id (st.markEvent .retry)

def afterTerminal (s : Scheduler) (id : ResourceId) (st : IdentityState) (e : Error)
    (reschedule : Option Span) : Scheduler :=
  let attempts := ((st.retry.map (·.attempts))).getD 0
  let st := { st with lastFailure := some (failureRecord e .terminal attempts true) }
  if st.hasEvent then s.enqueue id st
  else
    match reschedule with
    | some delay => s.arm id st delay .rescheduled
    | none => s.put id st

def afterTransient (s : Scheduler) (id : ResourceId) (st : IdentityState) (e : Error) :
    Scheduler :=
  let failing := fun (st : IdentityState) attempts terminal =>
    { st with lastFailure := some (failureRecord e .transient attempts terminal) }
  match s.config.retry with
  | none =>
    let st := failing st 0 true
    if st.hasEvent then s.enqueue id st else s.put id st
  | some policy =>
    let execution := st.retry.getD { policy }
    if st.hasEvent then
      s.enqueue id (failing { st with retry := some execution } execution.attempts false)
    else
      match execution.nextDelay with
      | (some delay, execution) =>
        ({ s with stats.retriesScheduled := s.stats.retriesScheduled + 1 }).arm id
          (failing { st with retry := some execution } execution.attempts false) delay .retry
      | (none, execution) =>
        let s := { s with stats.retriesExhausted := s.stats.retriesExhausted + 1 }
        let st := failing { st with retry := some execution } execution.attempts true
        match s.config.maxInterval with
        | some interval => s.arm id st interval .rescheduled
        | none => s.put id st

/-- The class of a failed dispatch; one that must not be retried is terminal. -/
def classOf (e : Error) (noRetry : Bool) : FailureClass :=
  if noRetry then .terminal else FailureClass.ofError e

def afterFailure (s : Scheduler) (id : ResourceId) (st : IdentityState) (e : Error)
    (summary : DispatchSummary) : Scheduler :=
  let s := { s with stats.failed := s.stats.failed + 1 }
  if st.isDeleted then s.drop id
  else
    match classOf e summary.noRetry with
    | .conflict => s.afterConflict id st
    | .terminal => s.afterTerminal id st e summary.reschedule
    | .transient => s.afterTransient id st e

def countSuccess (s : Scheduler) (summary : DispatchSummary) : Scheduler :=
  { s with
    stats.succeeded := s.stats.succeeded + (if summary.skipped then 0 else 1)
    stats.finalizersAdded := s.stats.finalizersAdded + (if summary.finalizerAdded then 1 else 0) }

/-- The next look at an identity that is idle after a success. -/
def afterIdleSuccess (s : Scheduler) (id : ResourceId) (st : IdentityState)
    (reschedule : Option Span) : Scheduler :=
  match reschedule, s.config.maxInterval with
  | some delay, _ =>
    if delay.isZero then s.enqueue id (st.markEvent .rescheduled)
    else s.arm id st delay .rescheduled
  | none, some interval => s.arm id st interval .rescheduled
  | none, none => s.put id st

def afterSuccess (s : Scheduler) (id : ResourceId) (st : IdentityState)
    (summary : DispatchSummary) : Scheduler :=
  let s := s.countSuccess summary
  let st := { st.cancelTimer with retry := none, lastFailure := none }
  if st.isDeleted then s.drop id
  else if summary.finalizerRemoved then
    ({ s with stats.finalizersRemoved := s.stats.finalizersRemoved + 1 }).put id
      { st with event := .released, causes := [] }
  else if st.hasEvent then s.enqueue id st
  else if summary.skipped then s.drop id
  else s.afterIdleSuccess id st summary.reschedule

/-- The end of the dispatch of an identity. -/
def finished (s : Scheduler) (id : ResourceId) (summary : DispatchSummary) : Scheduler :=
  match s.stateOf? id with
  | none => s
  | some st =>
    let st := { st with inFlight := false }
    match summary.error with
    | some e => s.afterFailure id st e summary
    | none => s.afterSuccess id st summary

end Reconciliation.Scheduler
