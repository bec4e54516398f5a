import Reconciliation.Dependent.Basic
import Reconciliation.Error

/-!
The outcomes of the nodes of a workflow in one pass.

A pass that left a node without an outcome, or with one that is not settled, is not ready.
-/
namespace Reconciliation

/-- The purpose of a pass: to bring dependents about, or to take them away. -/
inductive PassMode where
  | reconcile
  | cleanup
  deriving DecidableEq

def PassMode.text : PassMode → String
  | .reconcile => "reconcile"
  | .cleanup => "cleanup"

/-- How the visit of a node ended. -/
inductive NodeOutcome where
  | succeeded (operations : Operations)
  | skippedInactive
  | deleted (operations : Operations)
  | notReady (operations : Operations) (reason : String)
  | errored (error : Error)
  deriving Inhabited

namespace NodeOutcome

def isSucceeded : NodeOutcome → Bool
  | succeeded _ => true
  | _ => false

def isSkipped : NodeOutcome → Bool
  | skippedInactive => true
  | _ => false

def isDeleted : NodeOutcome → Bool
  | deleted _ => true
  | _ => false

def isNotReady : NodeOutcome → Bool
  | notReady .. => true
  | _ => false

def isErrored : NodeOutcome → Bool
  | errored _ => true
  | _ => false

/-- Nothing is left to do for the node in this pass. -/
def isSettled : NodeOutcome → Bool
  | succeeded _ | skippedInactive | deleted _ => true
  | _ => false

def operations? : NodeOutcome → Option Operations
  | succeeded o | deleted o | notReady o _ => some o
  | skippedInactive | errored _ => none

def error? : NodeOutcome → Option Error
  | errored e => some e
  | _ => none

/-- What a success of the delete pass is called in the result. -/
def asDeleted : NodeOutcome → NodeOutcome
  | succeeded o => deleted o
  | o => o

end NodeOutcome

/-- The outcomes of a pass in the order in which the nodes completed, and the names of all
nodes in topological order. -/
structure PassResult where
  mode : PassMode
  declared : List String
  recorded : List (String × NodeOutcome) := []

namespace PassResult

def record (r : PassResult) (name : String) (o : NodeOutcome) : PassResult :=
  { r with recorded := r.recorded ++ [(name, o)] }

def outcome? (r : PassResult) (name : String) : Option NodeOutcome := r.recorded.lookup name

def completionOrder (r : PassResult) : List String := r.recorded.map (·.1)

/-- The names whose outcome has a property, in completion order. -/
def namesWhere (r : PassResult) (p : NodeOutcome → Bool) : List String :=
  (r.recorded.filter fun e => p e.2).map (·.1)

def succeeded (r : PassResult) : List String := r.namesWhere NodeOutcome.isSucceeded

def skipped (r : PassResult) : List String := r.namesWhere NodeOutcome.isSkipped

def deleted (r : PassResult) : List String := r.namesWhere NodeOutcome.isDeleted

def notReady (r : PassResult) : List String := r.namesWhere NodeOutcome.isNotReady

def errored (r : PassResult) : List (String × Error) :=
  r.recorded.filterMap fun e => e.2.error?.map (e.1, ·)

def unreached (r : PassResult) : List String :=
  r.declared.filter fun name => (r.outcome? name).isNone

def hasErrors (r : PassResult) : Bool := r.recorded.any (·.2.isErrored)

def pendingNodes (r : PassResult) : List String :=
  r.namesWhere fun o => o.isErrored || o.isNotReady

/-- Every declared node is settled. -/
def allReady (r : PassResult) : Bool :=
  r.declared.all fun name => (r.outcome? name).any NodeOutcome.isSettled

def needsRecheck (r : PassResult) : Bool := r.recorded.any (·.2.isNotReady)

/-- The failures of all errored nodes as one. -/
def toExcept (r : PassResult) : Except Error PassResult :=
  if r.errored.isEmpty then .ok r else .error (.dependents r.errored)

end PassResult
end Reconciliation
