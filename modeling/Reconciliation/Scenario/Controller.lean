import Reconciliation.Controller.Desk
import Reconciliation.Scenario.Cluster
import Reconciliation.Scenario.Reconciler
import Reconciliation.Scenario.Workflow

/-!
Scenarios of a controller over a cluster, with a scripted reconciler and scripted dependents.

After each step everything goes on until nothing can. Unless the controller watches the cluster
itself, the changes are then handed to it in rounds, each after everything that follows from
the round before.
-/
namespace Reconciliation.Scenario

/-- What happens to a controller or its cluster next. -/
inductive ControllerStep where
  | cluster (step : ClusterStep)
  | run (feed : EventFeed)
  | trigger (signal : ShutdownSignal) (reports : Bool)
  | pump (on : Bool)
  | event (e : ChangeEvent)
  | submit (id : ResourceId) (cause : TriggerCause)
  | reschedule (id : ResourceId) (delay : Span)
  | advance (millis : Nat)
  | script (script : SortedMap ResourceId VerdictScript)

def readVerdicts (j : Json) : Option (SortedMap ResourceId VerdictScript) := do
  let entries ← (← fieldOr [] Json.asFields? j "script").mapM fun e => do
    some (← idOfText? e.1, ← VerdictScript.read e.2)
  some (.ofList entries)

namespace ControllerStep

def readFeed (j : Json) : Option EventFeed := do
  match ← fieldOr "pump" Json.asString? j "feed" with
  | "pump" => some .silent
  | "closed" => some .ended
  | "watch" => some (.watch 0)
  | _ => none

def read (j : Json) : Option ControllerStep := do
  let id := fieldOf readId j "id"
  let millis := fieldOf (Json.asNat? Json.maxUInt64) j "ms"
  match ← fieldOf Json.asString? j "do" with
  | "run" => return .run (← readFeed j)
  | "shutdown" => some (.trigger .programmatic false)
  | "trigger" => return .trigger (← fieldOf readSignal j "signal") true
  | "pump" => return .pump (← fieldOf Json.asBool? j "on")
  | "event" =>
    return .event ⟨← ChangeAction.ofName? (← fieldOf Json.asString? j "action"),
      ← fieldOf readObject j "object"⟩
  | "submit" => return .submit (← id) (← fieldOf readCause j "cause")
  | "reschedule" => return .reschedule (← id) (.ofMillis (← millis))
  | "advance" => return .advance (← millis)
  | "script" => return .script (← readVerdicts j)
  | verb => return .cluster (← ClusterStep.read verb j)

end ControllerStep

/-- A controller of a scenario, and what has been seen of it. -/
structure ControllerBench where
  dispatcher : Dispatcher fixtures
  engine : Engine (DispatchProcess fixtures) (Desk Cast)
  /-- Changes are handed to the controller after each step. -/
  pumping : Bool := true
  /-- The number of changes that have been seen. -/
  seen : Nat := 0
  /-- The primaries that steps and changes were about. -/
  named : List ResourceId := []

namespace ControllerBench

def clusterOf (c : Cast) : Cluster := c.world.cluster

def host (b : ControllerBench) : Host (DispatchProcess fixtures) (Desk Cast) :=
  Desk.host b.dispatcher Cast.handlers clusterOf

def desk (b : ControllerBench) : Desk Cast := b.engine.world

def cluster (b : ControllerBench) : Cluster := clusterOf b.desk.world

def setCast (b : ControllerBench) (c : Cast) : ControllerBench :=
  { b with engine.world.world := c }

def settle (b : ControllerBench) : ControllerBench :=
  { b with engine := b.engine.settle b.host Engine.turnLimit }

def handle (b : ControllerBench) (events : List ChangeEvent) : ControllerBench :=
  let (scheduler, desk) := b.desk.handle clusterOf events b.engine.scheduler
  { b with engine.scheduler := scheduler, engine.world := desk }

def kind (b : ControllerBench) : String := b.desk.controller.settings.kind

def nameAll (b : ControllerBench) (objects : List ManagedObject) : ControllerBench :=
  let primaries := (objects.map ManagedObject.id).filter fun id => id.kind = b.kind
  { b with named := b.named ++ primaries }

/-- Lets everything go on, and hands changes on in rounds until there are none. The changes are
the first part of the answer. -/
def rounds : Nat → ControllerBench → List ChangeEvent × ControllerBench
  | 0, b => ([], b)
  | fuel + 1, b =>
    let b := b.settle
    match b.cluster.changesSince b.seen with
    | [] => ([], b)
    | events =>
      let b := { b with seen := b.cluster.log.length }.nameAll (events.map ChangeEvent.object)
      let b := if b.pumping then b.handle events else b
      let (later, b) := rounds fuel b
      (events ++ later, b)

/-- More rounds than any step takes. -/
def roundLimit : Nat := 100000

/-- Calls the controller's loop on a feed; one that ran before keeps the feed it had. Changes
that the controller watches itself are not handed to it. -/
def callRun (b : ControllerBench) (feed : EventFeed) : ControllerBench :=
  let busy := b.engine.serving != .absent
  let b := { b with
    engine := b.engine.queueTurns [.run busy]
    pumping := b.pumping && !feed.isWatch }
  if b.desk.controller.started then b
  else { b with engine.world.feed := feed.startingAt b.cluster.log.length }

def perform (b : ControllerBench) : ControllerStep → Json × ControllerBench
  | .cluster step =>
    let (shown, cluster) := step.perform b.engine.now b.cluster
    (shown, b.setCast { b.desk.world with world.cluster := cluster })
  | .run feed => (.null, b.callRun feed)
  | .trigger signal reports =>
    let (first, desk) := b.desk.shutDown signal
    (if reports then .bool first else .null, { b with engine.world := desk })
  | .pump on => (.null, { b with pumping := on })
  | .event e => (.null, (b.nameAll [e.object]).handle [e])
  | .submit id cause =>
    (.null, { b with
      named := b.named ++ [id]
      engine.scheduler := b.engine.scheduler.trigger id cause false })
  | .reschedule id delay =>
    (.null, { b with
      named := b.named ++ [id]
      engine.scheduler := b.engine.scheduler.reschedule id delay })
  | .advance millis => (.null, { b with engine := b.engine.advance b.host millis })
  | .script script =>
    let merged := script.entries.foldl (fun m e =>
      m.insert e.1 (((m.get? e.1).getD {}).append e.2)) b.desk.world.script
    (.null, b.setCast { b.desk.world with script := merged })

def report (step : ControllerStep) (log : List LogLine) : Json :=
  let lines := log.reverse
  .arr ((match step with
    | .run _ => sortLines lines
    | _ => lines).map LogLine.shown)

def answer (b : ControllerBench) (step : ControllerStep) (result : Json)
    (events : List ChangeEvent) : Json :=
  let scheduler := b.engine.scheduler
  .object [
    ("result", result), ("log", report step b.desk.world.log),
    ("journal", texts b.desk.world.world.journal.reverse), ("events", Bench.showEvents events),
    ("objects", .arr ((b.cluster.ofKind b.kind).map showObject)),
    ("writes", .nat b.cluster.writeCount), ("stats", showStats scheduler.stats),
    ("ids", showIdentities scheduler b.named), ("tracked", .nat scheduler.states.size),
    ("running", .bool scheduler.running),
    ("second_run", .optional showOutcomeOfRun b.engine.secondOutcome),
    ("finished", .optional showOutcomeOfRun b.engine.outcome),
    ("signal", .optional (fun g => .str g.text) b.desk.controller.shutdown.signal)]

/-- What was reported is not reported again. -/
def forget (b : ControllerBench) : ControllerBench :=
  let b := b.setCast { b.desk.world with log := [], world.journal := [] }
  { b with engine.outcome := none, engine.secondOutcome := none }

def answers : List ControllerStep → ControllerBench → List Json × ControllerBench
  | [], b => ([], b)
  | step :: rest, b =>
    let (result, b) := b.perform step
    let (events, b) := rounds roundLimit b
    let (later, last) := answers rest b.forget
    (b.answer step result events :: later, last)

end ControllerBench

/-- The parts that the builder is not given. -/
def readMissing (j : Json) : Option (Bool × Bool) := do
  match ← optionalOf Json.asString? j "missing" with
  | none => some (false, false)
  | some "client" => some (true, false)
  | some "cache" => some (false, true)
  | some "both" => some (true, true)
  | some _ => none

def readControllerPlan (j : Json) (settings : Settings) (dependents : Option Dependents) :
    Option (ControllerPlan fixtures) := do
  let (noClient, noCache) ← readMissing j
  some {
    settings
    hasClient := !noClient
    hasCache := !noCache
    workflow := dependents.map (Dependents.plan "workflow")
    retry := ← match j.get? "retry_policy" with
      | none => some none
      | some .null => some (some none)
      | some p => (readPolicy p).map fun p => some (some p) }

/-- The answers to the steps of a controller scenario, or why the controller is refused. -/
def answerController (j : Json) : Option Json := do
  let dependents ← optionalOf Dependents.read j "workflow"
  let cast : Cast := {
    world := { holdings := NodeScript.holdings ((dependents.map Dependents.scripts).getD []) }
    character := ← fieldOr .scripted Character.read j "reconciler"
    secondaryKind := ← fieldOr "Pod" Json.asString? j "secondary_kind"
    script := ← readVerdicts j }
  let steps ← fieldOf (readList ControllerStep.read) j "steps"
  let external ← flagOf j "external_shutdown"
  match Settings.ofJson? true (← j.get? "settings") with
  | none => return .object [("error", .str "Deserialize")]
  | some settings =>
    match (← readControllerPlan j settings dependents).build with
    | .error e => return showError e
    | .ok built =>
      let bench : ControllerBench := {
        dispatcher := built.dispatcher
        engine := {
          scheduler := built.scheduler
          world := { controller := built.controller, world := cast } } }
      let (shown, last) := ControllerBench.answers steps bench
      let signal := if external then last.desk.controller.shutdown.signal else none
      return .object [
        ("workers", .nat built.scheduler.config.workers),
        ("retrying", .bool built.scheduler.config.retry.isSome),
        ("workflow", .optional (fun w => .object [
          ("order", texts w.topologicalOrder), ("max_concurrency", .nat w.maxConcurrency)])
          built.dispatcher.workflow),
        ("external_signal", .optional (fun g => .str g.text) signal),
        ("steps", .arr shown)]

end Reconciliation.Scenario
