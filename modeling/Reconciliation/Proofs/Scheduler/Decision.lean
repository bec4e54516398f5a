import Reconciliation.Proofs.Sorted.Lookup
import Reconciliation.Scheduler.Completion

/-!
What an operation of the scheduler decides about one identity. A trigger, a call to reschedule,
a fired timer and the end of a dispatch look at the state of a single identity, and do one of
four things with it. Each operation is shown to carry out its decision, so that a fact about
all of them is proved for the four ways of carrying out and for the pure decisions.
-/
namespace Reconciliation

/-- What is done with the state of an identity. -/
inductive Decision where
  | drop
  | keep (st : IdentityState)
  | enqueue (st : IdentityState)
  | arm (st : IdentityState) (delay : Span) (cause : TriggerCause)

namespace Decision

/-- The state that a decision stores, before it is queued or gets its timer. -/
def state? : Decision → Option IdentityState
  | drop => none
  | keep st => some st
  | enqueue st => some st
  | arm st _ _ => some st

/-- The decision on a state that a trigger is recorded in, if the state takes it. -/
def record (st : IdentityState) (cause : TriggerCause) : Decision :=
  if st.acceptsEvents then
    let marked := st.markEvent cause
    if marked.isDispatchable then .enqueue marked.cancelTimer else .keep marked
  else .keep st

def onDeleted (st : IdentityState) : Decision :=
  if st.inFlight then .keep { st.cancelTimer with event := .deleted } else .drop

/-- The decision on a trigger; `none` leaves everything as it is. -/
def onTrigger (old : Option IdentityState) (cause : TriggerCause) (terminating : Bool) :
    Option Decision :=
  if cause = .deleted then old.map onDeleted
  else
    let st := old.getD {}
    if st.event = .released then
      if terminating then none else some (record { st with event := .quiet } cause)
    else some (record st cause)

def onReschedule (old : Option IdentityState) (delay : Span) : Option Decision :=
  let st := old.getD {}
  if st.isDeleted then none else some (.arm st delay .rescheduled)

def onTimer (old : Option IdentityState) (t : ArmedTimer) : Option Decision :=
  old.bind fun st =>
    if st.timer = some t.token then
      let st := st.cancelTimer
      some (if st.acceptsEvents then .enqueue (st.markEvent t.cause) else .keep st)
    else none

def afterTerminal (st : IdentityState) (e : Error) (reschedule : Option Span) : Decision :=
  let attempts := (st.retry.map (·.attempts)).getD 0
  let st := { st with lastFailure := some (Scheduler.failureRecord e .terminal attempts true) }
  if st.hasEvent then .enqueue st
  else
    match reschedule with
    | some delay => .arm st delay .rescheduled
    | none => .keep st

def afterTransient (config : SchedulerConfig) (st : IdentityState) (e : Error) : Decision :=
  let failing := fun (st : IdentityState) attempts terminal =>
    { st with lastFailure := some (Scheduler.failureRecord e .transient attempts terminal) }
  match config.retry with
  | none =>
    let st := failing st 0 true
    if st.hasEvent then .enqueue st else .keep st
  | some policy =>
    let execution := st.retry.getD { policy }
    if st.hasEvent then
      .enqueue (failing { st with retry := some execution } execution.attempts false)
    else
      match execution.nextDelay with
      | (some delay, execution) =>
        .arm (failing { st with retry := some execution } execution.attempts false) delay .retry
      | (none, execution) =>
        let st := failing { st with retry := some execution } execution.attempts true
        match config.maxInterval with
        | some interval => .arm st interval .rescheduled
        | none => .keep st

def afterFailure (config : SchedulerConfig) (st : IdentityState) (e : Error)
    (summary : DispatchSummary) : Decision :=
  if st.isDeleted then .drop
  else
    match Scheduler.classOf e summary.noRetry with
    | .conflict => .enqueue (st.markEvent .retry)
    | .terminal => afterTerminal st e summary.reschedule
    | .transient => afterTransient config st e

def afterIdleSuccess (config : SchedulerConfig) (st : IdentityState)
    (reschedule : Option Span) : Decision :=
  match reschedule, config.maxInterval with
  | some delay, _ =>
    if delay.isZero then .enqueue (st.markEvent .rescheduled) else .arm st delay .rescheduled
  | none, some interval => .arm st interval .rescheduled
  | none, none => .keep st

def afterSuccess (config : SchedulerConfig) (st : IdentityState) (summary : DispatchSummary) :
    Decision :=
  let st := { st.cancelTimer with retry := none, lastFailure := none }
  if st.isDeleted then .drop
  else if summary.finalizerRemoved then .keep { st with event := .released, causes := [] }
  else if st.hasEvent then .enqueue st
  else if summary.skipped then .drop
  else afterIdleSuccess config st summary.reschedule

/-- The decision on a state whose dispatch has ended. -/
def onFinished (config : SchedulerConfig) (st : IdentityState) (summary : DispatchSummary) :
    Decision :=
  let st := { st with inFlight := false }
  match summary.error with
  | some e => afterFailure config st e summary
  | none => afterSuccess config st summary

end Decision

namespace Scheduler

/-- Does with the state of an identity what was decided. -/
def carryOut (s : Scheduler) (id : ResourceId) : Decision → Scheduler
  | .drop => s.drop id
  | .keep st => s.put id st
  | .enqueue st => s.enqueue id st
  | .arm st delay cause => s.arm id st delay cause

def carryOut? (s : Scheduler) (id : ResourceId) : Option Decision → Scheduler
  | none => s
  | some d => s.carryOut id d

theorem record_eq (s : Scheduler) (id : ResourceId) (st : IdentityState)
    (cause : TriggerCause) :
    s.record id st cause = s.carryOut id (Decision.record st cause) := by
  unfold record Decision.record
  split
  · dsimp only
    split <;> rfl
  · rfl

/-- A trigger carries out the decision on it. -/
theorem trigger_eq (s : Scheduler) (id : ResourceId) (cause : TriggerCause)
    (terminating : Bool) :
    s.trigger id cause terminating =
      s.carryOut? id (Decision.onTrigger (s.stateOf? id) cause terminating) := by
  unfold trigger Decision.onTrigger
  split
  · unfold triggerDeleted
    cases hst : s.stateOf? id with
    | none => rfl
    | some st =>
      simp only [Option.map_some, Decision.onDeleted]
      split <;> rfl
  · simp only [stateOf, record_eq]
    split
    · split <;> rfl
    · rfl

theorem reschedule_eq (s : Scheduler) (id : ResourceId) (delay : Span) :
    s.reschedule id delay = s.carryOut? id (Decision.onReschedule (s.stateOf? id) delay) := by
  unfold reschedule Decision.onReschedule stateOf
  by_cases hd : ((s.stateOf? id).getD {}).isDeleted = true
  · simp only [hd, if_true, carryOut?]
  · simp only [hd, if_false, carryOut?, carryOut, Bool.false_eq_true]

theorem timerFired_eq (s : Scheduler) (t : ArmedTimer) :
    s.timerFired t = s.carryOut? t.id (Decision.onTimer (s.stateOf? t.id) t) := by
  unfold timerFired Decision.onTimer
  cases hst : s.stateOf? t.id with
  | none => rfl
  | some st =>
    simp only [Option.bind_some]
    split
    · split <;> rfl
    · rfl

theorem afterTerminal_eq (s : Scheduler) (id : ResourceId) (st : IdentityState) (e : Error)
    (reschedule : Option Span) :
    s.afterTerminal id st e reschedule =
      s.carryOut id (Decision.afterTerminal st e reschedule) := by
  unfold afterTerminal Decision.afterTerminal
  dsimp only
  split
  · rfl
  · cases reschedule <;> rfl

/-- What follows a transient failure is counted and otherwise only carries out the decision on
it. -/
theorem afterTransient_eq (s : Scheduler) (id : ResourceId) (st : IdentityState) (e : Error) :
    ∃ stats, s.afterTransient id st e =
      ({ s with stats } : Scheduler).carryOut id (Decision.afterTransient s.config st e) := by
  unfold afterTransient Decision.afterTransient
  cases s.config.retry with
  | none =>
    refine ⟨s.stats, ?_⟩
    dsimp only
    split <;> rfl
  | some policy =>
    dsimp only
    split
    · exact ⟨s.stats, rfl⟩
    · generalize (st.retry.getD { policy := policy }).nextDelay = next
      obtain ⟨delay?, execution⟩ := next
      cases delay? with
      | some delay => exact ⟨_, rfl⟩
      | none => cases s.config.maxInterval <;> exact ⟨_, rfl⟩

theorem afterFailure_eq (s : Scheduler) (id : ResourceId) (st : IdentityState) (e : Error)
    (summary : DispatchSummary) :
    ∃ stats, s.afterFailure id st e summary =
      ({ s with stats } : Scheduler).carryOut id
        (Decision.afterFailure s.config st e summary) := by
  unfold afterFailure Decision.afterFailure
  dsimp only
  split
  · exact ⟨_, rfl⟩
  · cases classOf e summary.noRetry with
    | conflict => exact ⟨_, rfl⟩
    | terminal => exact ⟨_, afterTerminal_eq _ id st e summary.reschedule⟩
    | transient => exact afterTransient_eq _ id st e

theorem afterIdleSuccess_eq (s : Scheduler) (id : ResourceId) (st : IdentityState)
    (reschedule : Option Span) :
    s.afterIdleSuccess id st reschedule =
      s.carryOut id (Decision.afterIdleSuccess s.config st reschedule) := by
  unfold afterIdleSuccess Decision.afterIdleSuccess
  cases reschedule with
  | some delay =>
    dsimp only
    split <;> rfl
  | none => cases s.config.maxInterval <;> rfl

/-- So it is with what follows a success. -/
theorem afterSuccess_eq (s : Scheduler) (id : ResourceId) (st : IdentityState)
    (summary : DispatchSummary) :
    ∃ stats, s.afterSuccess id st summary =
      ({ s with stats } : Scheduler).carryOut id
        (Decision.afterSuccess s.config st summary) := by
  unfold afterSuccess Decision.afterSuccess
  dsimp only
  split
  · exact ⟨_, rfl⟩
  split
  · exact ⟨_, rfl⟩
  split
  · exact ⟨_, rfl⟩
  split
  · exact ⟨_, rfl⟩
  · exact ⟨_, afterIdleSuccess_eq (s.countSuccess summary) id _ summary.reschedule⟩

/-- The end of a dispatch carries out its decision and otherwise only counts. -/
theorem finished_eq (s : Scheduler) (id : ResourceId) (summary : DispatchSummary)
    (st : IdentityState) (hst : s.stateOf? id = some st) :
    ∃ stats, s.finished id summary =
      ({ s with stats } : Scheduler).carryOut id
        (Decision.onFinished s.config st summary) := by
  simp only [finished, hst, Decision.onFinished]
  cases summary.error with
  | some e => exact afterFailure_eq s id _ e summary
  | none => exact afterSuccess_eq s id _ summary

end Scheduler
end Reconciliation
