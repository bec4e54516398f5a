import Reconciliation.Error
import Reconciliation.Resource.Object
import Reconciliation.Time.Span

/-!
The settings of an engine: their defaults, their valid ranges, and the objects in scope.
-/
namespace Reconciliation

/-- How failed dispatches are repeated; `none` as bound means no bound. -/
structure RetrySettings where
  enabled : Bool := true
  maxAttempts : Option UInt32 := some 5
  initialIntervalMs : UInt64 := 2000
  multiplier : Float := 1.5
  maxIntervalMs : Option UInt64 := none
  deriving DecidableEq

/-- How passes over dependents are run. -/
structure WorkflowSettings where
  maxConcurrency : UInt64 := 4
  readinessRecheckIntervalMs : UInt64 := 5000
  deriving DecidableEq

/-- The settings of an engine. -/
structure Settings where
  name : String := "steward"
  kind : String := ""
  workers : UInt64 := 10
  finalizer : Option String := none
  namespaces : List String := []
  labelSelector : SortedMap String String := {}
  retry : RetrySettings := {}
  workflow : WorkflowSettings := {}
  maxReconciliationIntervalMs : Option UInt64 := none
  generationAware : Bool := true
  deriving DecidableEq

namespace Settings

def forKind (kind : String) : Settings := { kind }

def finalizerIsEmpty (s : Settings) : Bool := s.finalizer = some ""

def multiplierInRange (s : Settings) : Bool :=
  s.retry.multiplier.isFinite && !(s.retry.multiplier < 1.0)

def maxIntervalInRange (s : Settings) : Bool :=
  match s.retry.maxIntervalMs with
  | some m => s.retry.initialIntervalMs ≤ m
  | none => true

/-- The first rule that the settings break, in the order of the rules. -/
def violation? (s : Settings) : Option String :=
  if (Text.trim s.kind).isEmpty then some "kind must not be empty"
  else if s.workers = 0 then some "workers must be at least 1"
  else if s.workflow.maxConcurrency = 0 then some "workflow.max_concurrency must be at least 1"
  else if s.finalizerIsEmpty then some "finalizer must not be empty"
  else if !s.multiplierInRange then some "retry.multiplier must be >= 1.0"
  else if !s.maxIntervalInRange then
    some "retry.max_interval_ms must not be below retry.initial_interval_ms"
  else none

def validate (s : Settings) : Except Error Unit :=
  match s.violation? with
  | some reason => .error (.invalidConfig reason)
  | none => .ok ()

/-- An object is in scope by its namespace and by carrying all selected labels. -/
def inScope (s : Settings) (o : ManagedObject) : Bool :=
  (s.namespaces.isEmpty || o.id.ns.any fun ns => s.namespaces.contains ns) &&
    s.labelSelector.entries.all fun e => o.labels.get? e.1 = some e.2

def maxReconciliationInterval (s : Settings) : Option Span :=
  s.maxReconciliationIntervalMs.map fun n => Span.ofMillis n.toNat

def readinessRecheckInterval (s : Settings) : Span :=
  Span.ofMillis s.workflow.readinessRecheckIntervalMs.toNat

end Settings
end Reconciliation
