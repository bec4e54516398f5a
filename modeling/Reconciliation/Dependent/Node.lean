import Reconciliation.Dependent.Adapter

/-!
Declared dependents and what a workflow sees of them.

A condition is checked against a fresh observation. Whatever goes wrong on the way is reported
as a condition that could not be evaluated.
-/
namespace Reconciliation

/-- The decisions that a condition can take part in. -/
inductive ConditionKind where
  | activation
  | reconcilePrecondition
  | ready
  | cleanupReady
  deriving DecidableEq

def ConditionKind.text : ConditionKind → String
  | .activation => "activation"
  | .reconcilePrecondition => "reconcile-precondition"
  | .ready => "ready"
  | .cleanupReady => "cleanup-ready"

abbrev Condition (I : Interface) (R : Type) :=
  ManagedObject → Observed R → Context → Action I (Except Error Bool)

namespace Condition
variable {I : Interface} {R : Type}

/-- A condition that only looks at what it is given. -/
def pure (p : ManagedObject → Observed R → Context → Bool) : Condition I R :=
  fun primary observed ctx => .done (.ok (p primary observed ctx))

def present : Condition I R := pure fun _ observed _ => observed.isPresent

def absent : Condition I R := pure fun _ observed _ => !observed.isPresent

end Condition

/-- A dependent with a name, the names that it depends on, and its conditions. -/
structure Dependent (I : Interface) (R : Type) where
  name : String
  dependsOn : List String := []
  adapter : Adapter I R
  condition? : ConditionKind → Option (Condition I R) := fun _ => none

/-- A dependent whose resources are out of sight. -/
structure Node (I : Interface) where
  name : String
  dependsOn : List String
  capability : Capability
  check : ConditionKind → ManagedObject → Context → Option (Action I (Except Error Bool))
  reconcile : ManagedObject → Context → Task I Error (Except Error Operations)
  delete : ManagedObject → Context → Task I Error (Except Error Operations)

namespace Dependent
variable {I : Interface} {R : Type}

def asEvaluationError (name : String) (kind : ConditionKind) : Error → Error
  | .conditionEvaluation dependent reason => .conditionEvaluation dependent reason
  | e => .conditionEvaluation name (kind.text ++ ": " ++ e.message)

def check (d : Dependent I R) (kind : ConditionKind) (primary : ManagedObject) (ctx : Context) :
    Option (Action I (Except Error Bool)) :=
  (d.condition? kind).map fun condition =>
    ((d.adapter.observe primary ctx).andThen fun observed => condition primary observed ctx).bind
      fun outcome => .done (outcome.mapError (asEvaluationError d.name kind))

def toNode (d : Dependent I R) : Node I where
  name := d.name
  dependsOn := d.dependsOn
  capability := d.adapter.capability
  check := d.check
  reconcile := d.adapter.reconcile d.name
  delete := d.adapter.delete d.name

end Dependent
end Reconciliation
