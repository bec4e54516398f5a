import Reconciliation.Controller.Desk
import Reconciliation.WebApp.Workflow

/-!
The demo: the sample controller on a cluster of its own, under a short script of user edits.

The script creates some applications, scales the first one up and deletes the last one, with a
pause after each step. A signal from outside ends the pause during which it comes and with it
the script; the controller is stopped at the end.
-/
namespace Reconciliation.WebApp

/-- The size and the pace of a demo. -/
structure DemoOptions where
  apps : Nat := 3
  replicas : Nat := 2
  /-- The length of the pauses in milliseconds. -/
  settle : Nat := 500

/-- A signal from outside at a time in milliseconds. -/
structure Interruption where
  time : Nat
  signal : ShutdownSignal

/-- An application as the demo leaves it. -/
structure AppSummary where
  id : ResourceId
  generation : UInt64
  status : Option Json

/-- The state at the end of a demo. -/
structure DemoReport where
  interruptedBy : Option ShutdownSignal
  apps : List AppSummary
  configMaps : Nat
  pods : Nat
  ingresses : Nat
  writes : Nat
  stats : SchedulerStats

/-- The sample reconciler on a cluster. It writes nothing by itself and never crashes. -/
def answer (_now : Nat) (call : PrimaryCall) (c : Cluster) : Option call.Reply × Cluster :=
  match call with
  | .observe id => (some (c.get? id), c)
  | .patch id expected p =>
    let (r, c) := c.patch id expected p
    (some r, c)
  | .reconcile primary ctx =>
    (some (reconcile primary ctx (c.ownedBy ctx.primary "Pod").length), c)
  | .cleanup _ _ => (some (.ok .proceed), c)
  | .errorStatus primary ctx e => (some (errorStatus primary ctx e), c)

def handlers : Handlers Client.plainInterface Cluster where
  nodes := { issue := fun _ _ c => (0, c), answer := ClusterCall.answer }
  issue := fun _ _ c => (0, c)
  answer := answer

/-- A demo under way. -/
structure Demo where
  dispatcher : Dispatcher Client.plainInterface
  engine : Engine (DispatchProcess Client.plainInterface) (Desk Cluster)
  options : DemoOptions
  interruption : Option Interruption

namespace Demo

def host (d : Demo) : Host (DispatchProcess Client.plainInterface) (Desk Cluster) :=
  Desk.host d.dispatcher handlers id

def cluster (d : Demo) : Cluster := d.engine.world.world

def now (d : Demo) : Nat := d.engine.now

def edit (d : Demo) (change : Cluster → Cluster) : Demo :=
  { d with engine.world.world := change d.cluster }

def settled (d : Demo) : Demo := { d with engine := d.engine.settle d.host Engine.turnLimit }

def shutDown (d : Demo) (signal : ShutdownSignal) : Demo :=
  { d with engine.world := (d.engine.world.shutDown signal).2 }

def isShutDown (d : Demo) : Bool := d.engine.world.controller.shutdown.isTriggered

def advance (d : Demo) (millis : Nat) : Demo :=
  if millis = 0 then d else { d with engine := d.engine.advance d.host millis }

/-- A pause, which the interruption cuts short if it comes before the end. -/
def pause (d : Demo) : Demo :=
  let last := d.now + d.options.settle
  match d.interruption with
  | some i =>
    if d.now ≤ i.time ∧ i.time < last then (d.advance (i.time - d.now)).shutDown i.signal
    else d.advance d.options.settle
  | none => d.advance d.options.settle

def appIds (ns : String) (n : Nat) : List ResourceId :=
  (List.range n).map fun i => ⟨kind, some ns, "app-" ++ toString i⟩

def appSpec (replicas : Nat) (isExposed : Bool) : Json :=
  .object [("replicas", .nat replicas), ("expose", .bool isExposed)]

/-- Every other application is exposed, beginning with the first. -/
def newApp (replicas index : Nat) (id : ResourceId) : ManagedObject where
  id := id
  spec := appSpec replicas (index % 2 = 0)
  labels := .ofList [("demo", "true")]

def createAll (options : DemoOptions) (ids : List ResourceId) (c : Cluster) : Cluster :=
  ids.zipIdx.foldl (fun c e => (c.create (newApp options.replicas e.2 e.1)).2) c

def scaled (options : DemoOptions) : Nat := min (options.replicas + 1) maxReplicas

/-- The edits of the script, each followed by a pause. -/
def edits (options : DemoOptions) (ids : List ResourceId) : List (Nat → Cluster → Cluster) :=
  [fun _ => createAll options ids]
    ++ (ids.head?.map fun first => fun _ c =>
      (c.editSpec first (appSpec (scaled options) true)).2).toList
    ++ ((ids.getLast?.filter fun _ => 1 < ids.length).map fun last => fun now c =>
      (c.delete last (.ofMillis now)).2).toList

def play (d : Demo) : List (Nat → Cluster → Cluster) → Demo
  | [] => d
  | change :: rest => if d.isShutDown then d else (d.edit (change d.now)).pause.play rest

def report (d : Demo) : DemoReport where
  interruptedBy := d.engine.world.controller.shutdown.signal.filter (· ≠ .programmatic)
  apps := (d.cluster.ofKind kind).map fun o => ⟨o.id, o.generation, o.status⟩
  configMaps := (d.cluster.ofKind "ConfigMap").length
  pods := (d.cluster.ofKind "Pod").length
  ingresses := (d.cluster.ofKind "Ingress").length
  writes := d.cluster.writeCount
  stats := d.engine.scheduler.stats

end Demo

/-- Plays the script and stops the controller. -/
def runDemo (settings : Settings) (options : DemoOptions) (interruption : Option Interruption) :
    Except Error DemoReport := do
  let built ← ControllerPlan.build {
    settings, workflow := some (workflowPlan Client.plain) }
  let ids := Demo.appIds (settings.namespaces.head?.getD "default") options.apps
  let desk : Desk Cluster := {
    controller := built.controller, feed := .watch 0, world := {} }
  let demo : Demo := {
    dispatcher := built.dispatcher
    engine := { scheduler := built.scheduler, world := desk, turns := [.run false] }
    options, interruption }
  return ((demo.settled.play (Demo.edits options ids)).shutDown .programmatic).settled.report

namespace DemoReport

def statsJson (s : SchedulerStats) : List (String × Json) :=
  [("dispatched", .nat s.dispatched), ("succeeded", .nat s.succeeded), ("failed", .nat s.failed),
    ("conflicts", .nat s.conflicts), ("retries_scheduled", .nat s.retriesScheduled),
    ("retries_exhausted", .nat s.retriesExhausted), ("panicked", .nat s.panicked),
    ("finalizers_added", .nat s.finalizersAdded),
    ("finalizers_removed", .nat s.finalizersRemoved)]

def appJson (a : AppSummary) : Json :=
  .obj [("id", .str a.id.text), ("generation", .nat a.generation.toNat),
    ("status", a.status.getD .null)]

/-- The report with its fields in the order in which they are read, not of their names. -/
def toJson (r : DemoReport) : Json :=
  .obj [
    ("interrupted_by", .optional (fun g => .str g.text) r.interruptedBy),
    ("webapps", .arr (r.apps.map appJson)), ("config_maps", .nat r.configMaps),
    ("pods", .nat r.pods), ("ingresses", .nat r.ingresses), ("writes", .nat r.writes),
    ("stats", .obj (statsJson r.stats))]

end DemoReport
end Reconciliation.WebApp
