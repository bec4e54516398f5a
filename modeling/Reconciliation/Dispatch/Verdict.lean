import Reconciliation.Error
import Reconciliation.Resource.Object
import Reconciliation.Time.Span

/-!
The verdicts of a reconciler and the summary of a dispatch.
-/
namespace Reconciliation

/-- The write that follows a successful reconcile; a given status is written with the spec. -/
inductive PrimaryUpdate where
  | none
  | status (status : Json)
  | resource (spec : Json) (status : Option Json)
  deriving Inhabited

/-- The verdict on an active primary. -/
structure ReconcileVerdict where
  update : PrimaryUpdate := .none
  reschedule : Option Span := none
  deriving Inhabited

/-- The verdict on a terminating primary: its finalizer may go, or it is looked at again. -/
inductive CleanupVerdict where
  | proceed
  | reschedule (delay : Span)
  deriving Inhabited

/-- What to do about a failed reconcile. -/
structure FailureVerdict where
  status : Option Json := none
  retry : Bool := true
  reschedule : Option Span := none
  deriving Inhabited

/-- What a dispatch did. `skipped` says that nothing ran. -/
structure DispatchSummary where
  updated : Option ManagedObject := none
  finalizerAdded : Bool := false
  finalizerRemoved : Bool := false
  reschedule : Option Span := none
  error : Option Error := none
  noRetry : Bool := false
  skipped : Bool := false
  deriving Inhabited

namespace DispatchSummary

def skip : DispatchSummary := { skipped := true }

def failed (e : Error) : DispatchSummary := { error := some e }

def succeeded (updated : Option ManagedObject) (reschedule : Option Span) :
    DispatchSummary := { updated, reschedule }

/-- The dispatch only added the finalizer and asks to be run again at once. -/
def addedFinalizer (updated : ManagedObject) : DispatchSummary :=
  { updated := some updated, finalizerAdded := true, reschedule := some .zero }

def removedFinalizer (updated : Option ManagedObject) : DispatchSummary :=
  { updated, finalizerRemoved := true }

end DispatchSummary
end Reconciliation
