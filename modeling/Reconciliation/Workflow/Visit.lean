import Reconciliation.Dependent.Node

/-!
The visit of one node in a pass.

Conditions gate what follows: one that does not hold closes the visit with an outcome, one that
cannot be evaluated leaves the node not ready. A visit stops at the first closed gate.
-/
namespace Reconciliation.Node
variable {I : Interface}

/-- Goes on where a condition holds or is absent. -/
def gate (check : Option (Action I (Except Error Bool))) (operations : Operations)
    (closed : NodeOutcome) (proceed : Task I Error NodeOutcome) : Task I Error NodeOutcome :=
  match check with
  | none => proceed
  | some evaluate =>
    (Task.ofAction evaluate).bind fun
      | .ok true => proceed
      | .ok false => .done closed
      | .error e => .done (.notReady operations e.message)

/-- A node whose precondition does not hold is marked by a deletion without operations. -/
def reconcileVisit (n : Node I) (primary : ManagedObject) (ctx : Context) :
    Task I Error NodeOutcome :=
  gate (n.check .activation primary ctx) {} .skippedInactive <|
    gate (n.check .reconcilePrecondition primary ctx) {} (.deleted {}) <|
      (n.reconcile primary ctx).bind fun
        | .error e => .done (.errored e)
        | .ok operations =>
          gate (n.check .ready primary ctx) operations
            (.notReady operations "readiness condition not met") (.done (.succeeded operations))

def cleanupVisit (n : Node I) (primary : ManagedObject) (ctx : Context) :
    Task I Error NodeOutcome :=
  gate (n.check .activation primary ctx) {} .skippedInactive <|
    gate (n.check .cleanupReady primary ctx) {} (.notReady {} "cleanup condition not met") <|
      (n.delete primary ctx).bind fun
        | .error e => .done (.errored e)
        | .ok operations => .done (.succeeded operations)

def visit (mode : PassMode) (n : Node I) (primary : ManagedObject) (ctx : Context) :
    Task I Error NodeOutcome :=
  match mode with
  | .reconcile => n.reconcileVisit primary ctx
  | .cleanup => n.cleanupVisit primary ctx

end Reconciliation.Node
