import Reconciliation.Cluster.Store
import Reconciliation.Dispatch.Dispatcher
import Reconciliation.Scheduler.Basic
import Reconciliation.Shutdown

/-!
Controllers: how changes of the cluster become triggers of primaries.

A change of a primary in scope triggers it, unless only its generation would tell the change
and the generation is the same as before. A change of another object triggers the primary that
owns it.
-/
namespace Reconciliation

/-- A controller of the primaries of one kind. -/
structure Controller where
  settings : Settings
  /-- The latest generation seen of each primary. -/
  generations : SortedMap ResourceId UInt64 := {}
  shutdown : Shutdown := {}
  /-- A controller runs at most once. -/
  started : Bool := false

namespace Controller

/-- An update of an active object whose generation was seen before. -/
def isStaleUpdate (c : Controller) (o : ManagedObject) : Bool :=
  c.settings.generationAware && !o.isTerminating && c.generations.get? o.id == some o.generation

def submit (s : Scheduler) (o : ManagedObject) (cause : TriggerCause) : Scheduler :=
  s.trigger o.id cause o.isTerminating

def handlePrimary (c : Controller) (e : ChangeEvent) (s : Scheduler) : Controller × Scheduler :=
  let o := e.object
  if !c.settings.inScope o then (c, s)
  else
    match e.action with
    | .deleted =>
      ({ c with generations := c.generations.erase o.id }, s.trigger o.id .deleted false)
    | action =>
      if action = .updated ∧ c.isStaleUpdate o then (c, s)
      else
        ({ c with generations := c.generations.insert o.id o.generation },
          submit s o action.cause)

/-- The primary as the cluster knows it decides about scope and deletion. -/
def handleSecondary (c : Controller) (cluster : Cluster) (owner : ResourceId) (s : Scheduler) :
    Scheduler :=
  match cluster.get? owner with
  | none => s
  | some primary =>
    if c.settings.inScope primary then submit s primary .dependentEvent else s

/-- The owner of an object, if it is a primary. -/
def primaryOwner? (c : Controller) (o : ManagedObject) : Option ResourceId :=
  o.owner.filter fun owner => owner.kind = c.settings.kind

def handleEvent (c : Controller) (cluster : Cluster) (e : ChangeEvent) (s : Scheduler) :
    Controller × Scheduler :=
  if e.object.id.kind = c.settings.kind then c.handlePrimary e s
  else
    match c.primaryOwner? e.object with
    | some owner => (c, c.handleSecondary cluster owner s)
    | none => (c, s)

def handleEvents (c : Controller) (cluster : Cluster) (es : List ChangeEvent) (s : Scheduler) :
    Controller × Scheduler :=
  es.foldl (fun (c, s) e => c.handleEvent cluster e s) (c, s)

end Controller

/-- What a controller is built from. -/
structure ControllerPlan (I : Interface) where
  settings : Settings
  hasClient : Bool := true
  hasCache : Bool := true
  workflow : Option (WorkflowPlan I) := none
  /-- A retry policy in place of the one of the settings. -/
  retry : Option (Option RetryPolicy) := none
  shutdown : Shutdown := {}

/-- The parts of a controller. -/
structure BuiltController (I : Interface) where
  controller : Controller
  dispatcher : Dispatcher I
  scheduler : Scheduler

namespace ControllerPlan
variable {I : Interface}

def buildWorkflow (p : ControllerPlan I) : Except Error (Option (Workflow I)) :=
  match p.workflow with
  | none => .ok none
  | some plan =>
    (plan.withMaxConcurrency p.settings.workflow.maxConcurrency.toNat).build.map some

def schedulerConfig (p : ControllerPlan I) : SchedulerConfig :=
  let config := SchedulerConfig.ofSettings p.settings
  { config with retry := p.retry.getD config.retry }

/-- Refuses invalid settings first, then a missing part, then an invalid workflow. -/
def build (p : ControllerPlan I) : Except Error (BuiltController I) := do
  p.settings.validate
  if !p.hasClient then throw (.invalidConfig "controller needs an API client")
  if !p.hasCache then throw (.invalidConfig "controller needs an object cache")
  let workflow ← p.buildWorkflow
  return {
    controller := { settings := p.settings, shutdown := p.shutdown }
    dispatcher := .ofSettings p.settings workflow
    scheduler := { config := p.schedulerConfig } }

end ControllerPlan
end Reconciliation
