import Reconciliation.Dispatch.Verdict
import Reconciliation.Workflow.Pass

/-!
The dispatch of one primary: its finalizer, the pass over its dependents, the reconciler, and
the write that follows.

An active primary gets the finalizer before anything else is done for it. A terminating one
loses it after its dependents are cleaned up and the reconciler has agreed. Each write is
checked against the version that the dispatch has read.
-/
namespace Reconciliation

/-- What a dispatch asks about its primary: the cluster's view of it, a write on it, and the
verdicts of the reconciler. -/
inductive PrimaryCall where
  | observe (id : ResourceId)
  | patch (id : ResourceId) (expected : Version) (p : ObjectPatch)
  | reconcile (primary : ManagedObject) (ctx : Context)
  | cleanup (primary : ManagedObject) (ctx : Context)
  | errorStatus (primary : ManagedObject) (ctx : Context) (e : Error)

def PrimaryCall.Reply : PrimaryCall → Type
  | observe _ => Option ManagedObject
  | patch .. => Except Error ManagedObject
  | reconcile .. => Except Error ReconcileVerdict
  | cleanup .. => Except Error CleanupVerdict
  | errorStatus .. => FailureVerdict

/-- A call about the primary, or a pass over its dependents. -/
inductive DispatchCall (I : Interface) where
  | primary (c : PrimaryCall)
  | pass (w : Workflow I) (mode : PassMode) (primary : ManagedObject) (ctx : Context)

def DispatchCall.Reply {I : Interface} : DispatchCall I → Type
  | primary c => c.Reply
  | pass .. => PassResult

def dispatching (I : Interface) : Interface := ⟨DispatchCall I, DispatchCall.Reply⟩

abbrev Dispatching (I : Interface) (α : Type) := Action (dispatching I) α

/-- What all dispatches of a controller have in common. -/
structure Dispatcher (I : Interface) where
  /-- `none` switches finalization off. -/
  finalizer : Option String
  /-- The delay after which a pass that is not ready is repeated. -/
  readinessRecheck : Span
  workflow : Option (Workflow I) := none

namespace Dispatcher
variable {I : Interface}

def ofSettings (s : Settings) (workflow : Option (Workflow I)) : Dispatcher I where
  finalizer := s.finalizer
  readinessRecheck := s.readinessRecheckInterval
  workflow := workflow

def askPrimary (c : PrimaryCall) : Dispatching I c.Reply :=
  Action.ask (I := dispatching I) (.primary c)

/-- A write on the primary as it was read. -/
def write (primary : ManagedObject) (p : ObjectPatch) :
    Dispatching I (Except Error ManagedObject) :=
  askPrimary (.patch primary.id primary.version p)

def pass (w : Workflow I) (mode : PassMode) (primary : ManagedObject) (ctx : Context) :
    Dispatching I PassResult :=
  Action.ask (I := dispatching I) (.pass w mode primary ctx)

/-- The configured finalizer, if the object lacks it. -/
def missingFinalizer? (d : Dispatcher I) (primary : ManagedObject) : Option String :=
  d.finalizer.filter fun f => !primary.hasFinalizer f

def addFinalizer (primary : ManagedObject) (f : String) : Dispatching I DispatchSummary := do
  match ← write primary (.withFinalizer f) with
  | .ok updated => return .addedFinalizer updated
  | .error e => return .failed e

/-- A primary that is gone already has lost its finalizer too. -/
def removeFinalizer (primary : ManagedObject) (f : String) :
    Dispatching I DispatchSummary := do
  match ignoreNotFound (← write primary (.withoutFinalizer f)) with
  | .ok updated => return .removedFinalizer updated
  | .error e => return .failed e

/-- The write that a verdict asks for; one that would change nothing is left out. -/
def patchFor (primary : ManagedObject) : PrimaryUpdate → Option ObjectPatch
  | .none => none
  | .status status => if primary.status == some status then none else some (.setStatus status)
  | .resource spec status =>
    let statusChanges := status.isSome && !(status == primary.status)
    if !(spec == primary.spec) || statusChanges then some (.setSpec spec status) else none

def applyUpdate (primary : ManagedObject) (verdict : ReconcileVerdict) (readiness : Option Span) :
    Dispatching I DispatchSummary := do
  let reschedule := verdict.reschedule.or readiness
  match patchFor primary verdict.update with
  | none => return .succeeded none reschedule
  | some p =>
    match ← write primary p with
    | .ok updated => return .succeeded (some updated) reschedule
    | .error e => return .failed e

/-- The reconciler may record a failure in the status; whether that write succeeds changes
nothing about the failure. -/
def handleError (primary : ManagedObject) (ctx : Context) (e : Error) :
    Dispatching I DispatchSummary := do
  let decision : FailureVerdict ← askPrimary (.errorStatus primary ctx e)
  let updated ← match decision.status with
    | none => pure none
    | some status => do
      match ← write primary (.setStatus status) with
      | .ok updated => pure (some updated)
      | .error _ => pure none
  return {
    DispatchSummary.failed e with
    updated
    noRetry := !decision.retry
    reschedule := decision.reschedule }

/-- A conflict is repeated at once, so it is not recorded. -/
def conclude (primary : ManagedObject) (ctx : Context) (readiness : Option Span) :
    Except Error ReconcileVerdict → Dispatching I DispatchSummary
  | .ok verdict => applyUpdate primary verdict readiness
  | .error e => if e.isConflict then pure (.failed e) else handleError primary ctx e

/-- The pass comes first. The reconciler sees its result unless a node failed. -/
def reconcile (d : Dispatcher I) (primary : ManagedObject) (ctx : Context) :
    Dispatching I DispatchSummary := do
  match d.workflow with
  | none => conclude primary ctx none (← askPrimary (.reconcile primary ctx))
  | some w =>
    let r ← pass w .reconcile primary ctx
    match r.toExcept with
    | .error e => conclude primary ctx none (.error e)
    | .ok r =>
      let ctx := { ctx with passResult := some r }
      let readiness := if r.needsRecheck then some d.readinessRecheck else none
      conclude primary ctx readiness (← askPrimary (.reconcile primary ctx))

def reconcileActive (d : Dispatcher I) (primary : ManagedObject) (ctx : Context) :
    Dispatching I DispatchSummary :=
  match d.missingFinalizer? primary with
  | some f => addFinalizer primary f
  | none => d.reconcile primary ctx

/-- The reconciler's part of a cleanup, once the dependents are gone. -/
def release (d : Dispatcher I) (primary : ManagedObject) (ctx : Context) :
    Dispatching I DispatchSummary := do
  let verdict : Except Error CleanupVerdict ← askPrimary (.cleanup primary ctx)
  match verdict with
  | .error e => return .failed e
  | .ok (.reschedule delay) => return .succeeded none (some delay)
  | .ok .proceed =>
    match d.finalizer with
    | some f => removeFinalizer primary f
    | none => return .succeeded none none

def cleanup (d : Dispatcher I) (primary : ManagedObject) (ctx : Context) :
    Dispatching I DispatchSummary := do
  match d.workflow with
  | none => d.release primary ctx
  | some w =>
    match (← pass w .cleanup primary ctx).toExcept with
    | .error e => return .failed e
    | .ok r =>
      if r.allReady then d.release primary { ctx with passResult := some r }
      else return .succeeded none (some d.readinessRecheck)

/-- A terminating object without the configured finalizer is none of the engine's business. -/
def cleanupTerminating (d : Dispatcher I) (primary : ManagedObject) (ctx : Context) :
    Dispatching I DispatchSummary :=
  match d.missingFinalizer? primary with
  | some _ => pure .skip
  | none => d.cleanup primary ctx

/-- One dispatch. There is nothing to do for a primary that is gone. -/
def dispatch (d : Dispatcher I) (request : ReconciliationRequest) (retry : Option RetryInfo) :
    Dispatching I DispatchSummary := do
  let ctx : Context := { primary := request.id, retry, causes := request.causes }
  let observed : Option ManagedObject ← askPrimary (.observe request.id)
  match observed with
  | none => return .skip
  | some primary =>
    if primary.isTerminating then d.cleanupTerminating primary ctx
    else d.reconcileActive primary ctx

end Dispatcher
end Reconciliation
