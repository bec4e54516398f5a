import Reconciliation.Scenario.Cluster
import Reconciliation.Scenario.Node
import Reconciliation.WebApp.Workflow
import Reconciliation.Workflow.Pass

/-!
Scenarios of one workflow on one primary.

The clock moves only when nothing can go on, and then to the next time at which something can.
-/
namespace Reconciliation.Scenario

/-- The dependents of a scenario. -/
inductive Dependents where
  | webApp
  | scripted (nodes : List NodeScript)

namespace Dependents

def read : Json → Option Dependents
  | .str "webapp" => some .webApp
  | j => (readList NodeScript.read j).map scripted

def scripts : Dependents → List NodeScript
  | webApp => []
  | scripted nodes => nodes

def plan (name : String) : Dependents → WorkflowPlan fixtures
  | webApp => WebApp.workflowPlan client
  | scripted nodes => { name, nodes := nodes.map NodeScript.toNode }

end Dependents

def readPlan (j : Json) : Option (Dependents × WorkflowPlan fixtures) := do
  let dependents ← fieldOf Dependents.read j "nodes"
  let plan := dependents.plan (← fieldOr "w" Json.asString? j "name")
  match ← optionalOf (Json.asNat? Json.maxUInt64) j "max_concurrency" with
  | some n => some (dependents, plan.withMaxConcurrency n)
  | none => some (dependents, plan)

def describeNode (w : Workflow fixtures) (name : String) : Json :=
  let capability := w.capabilityOf? name
  .object [
    ("dependencies", .optional texts (w.dependenciesOf? name)),
    ("dependents", .optional texts (w.dependentsOf? name)),
    ("capability", .optional (fun c => .str c.text) capability),
    ("mutating", .optional (fun c => .bool c.isMutating) capability),
    ("bulk", .optional (fun c => .bool c.isBulk) capability)]

def describeWorkflow (w : Workflow fixtures) : Json :=
  let names := w.nodes.map (·.node.name) ++ ["no-such-node"]
  .object [
    ("name", .str w.name), ("len", .nat w.nodes.length), ("empty", .bool w.nodes.isEmpty),
    ("max_concurrency", .nat w.maxConcurrency), ("order", texts w.topologicalOrder),
    ("has_mutating", .bool w.hasMutatingNodes),
    ("nodes", .object (names.map fun name => (name, describeNode w name)))]

/-- The answer to the question what a declaration builds. -/
def answerBuild (j : Json) : Option Json := do
  let (_, plan) ← readPlan j
  match plan.build with
  | .ok w => return describeWorkflow w
  | .error e => return showError e

def showOperations (o : Operations) : Json :=
  .object [("created", .nat o.created), ("updated", .nat o.updated), ("deleted", .nat o.deleted),
    ("unchanged", .nat o.unchanged)]

def outcomeName : NodeOutcome → String
  | .succeeded _ => "Succeeded"
  | .skippedInactive => "SkippedInactive"
  | .deleted _ => "Deleted"
  | .notReady .. => "NotReady"
  | .errored _ => "Errored"

def showOutcome (o : NodeOutcome) : Json :=
  let details := match o with
    | .notReady _ reason => [("reason", Json.str reason)]
    | .errored e => [("error", .str (errorName e)), ("message", .str e.message)]
    | _ => []
  .object ([
    ("outcome", .str (outcomeName o)),
    ("operations", .optional showOperations o.operations?),
    ("changed", .bool (o.operations?.any (·.changedAnything))),
    ("settled", .bool o.isSettled)] ++ details)

def showResult (r : PassResult) : Json :=
  .object [
    ("mode", .str r.mode.text), ("order", texts r.completionOrder),
    ("outcomes", .object (r.recorded.map fun e => (e.1, showOutcome e.2))),
    ("succeeded", texts r.succeeded), ("skipped", texts r.skipped), ("deleted", texts r.deleted),
    ("not_ready", texts r.notReady), ("errored", texts (r.errored.map (·.1))),
    ("unreached", texts r.unreached), ("pending", texts r.pendingNodes),
    ("all_ready", .bool r.allReady), ("has_errors", .bool r.hasErrors),
    ("requires_reschedule", .bool r.needsRecheck),
    ("into_error", match r.toExcept with
      | .ok _ => .null
      | .error e => showError e)]

/-- A pass, or a change of the world between passes. -/
inductive PassStep where
  | pass (mode : PassMode)
  | primarySpec (spec : Json)
  | store (node : String) (value : Json)
  | desire (node : String) (value : Json)
  | secondaries (kind : String)
  | cluster (step : ClusterStep)

def PassStep.read (j : Json) : Option PassStep := do
  let node := fieldOf Json.asString? j "node"
  let value := (j.get? "value").getD .null
  match ← fieldOf Json.asString? j "do" with
  | "reconcile" => some (.pass .reconcile)
  | "cleanup" => some (.pass .cleanup)
  | "primary_spec" => return .primarySpec (← j.get? "spec")
  | "store" => return .store (← node) value
  | "desire" => return .desire (← node) value
  | "secondaries" => return .secondaries (← fieldOf Json.asString? j "kind")
  | verb => return .cluster (← ClusterStep.read verb j)

/-- A workflow on a primary at a time. -/
structure Bench where
  workflow : Workflow fixtures
  primary : ManagedObject
  ctx : Context
  now : Nat := 0
  world : World

namespace Bench

/-- More than the delays that any pass can meet. -/
def passLimit : Nat := 1000000

/-- A held value by its JSON form; null stands for nothing. -/
def storedOf (value : Json) : Holding → Option Holding
  | .single _ desired =>
    some (.single (match value with
      | .null => none
      | v => some v) desired)
  | .bulk _ desired =>
    match value with
    | .null => some (.bulk {} desired)
    | v => v.asFields?.map fun fields => .bulk (.ofList fields) desired

def desiredOf (value : Json) : Holding → Option Holding
  | .single stored _ => some (.single stored value)
  | .bulk stored _ =>
    match value with
    | .null => some (.bulk stored {})
    | v => v.asFields?.map fun fields => .bulk stored (.ofList fields)

def hold (b : Bench) (node : String) (change : Holding → Option Holding) :
    Option (Json × Bench) := do
  let h ← change (← b.world.holdings.get? node)
  some (.str "ok", { b with world.holdings := b.world.holdings.insert node h })

def perform (b : Bench) : PassStep → Option (Json × Bench)
  | .pass mode =>
    let p := b.workflow.pass mode b.primary b.ctx
    let (r, now, world) := p.finish World.environment passLimit b.now b.world
    some (.optional showResult r, { b with now, world })
  | .primarySpec spec => some (.str "ok", { b with primary.spec := spec })
  | .store node value => b.hold node (storedOf value)
  | .desire node value => b.hold node (desiredOf value)
  | .secondaries kind =>
    some (.arr ((b.world.cluster.ownedBy b.primary.id kind).map showObject), b)
  | .cluster step =>
    let (shown, cluster) := step.perform b.now b.world.cluster
    some (shown, { b with world.cluster := cluster })

def showStored : Holding → Json
  | .single stored _ => stored.getD .null
  | .bulk stored _ => .obj stored.entries

def showEvents (events : List ChangeEvent) : Json := texts (events.map ChangeEvent.summary)

/-- The answers of the steps, each with its share of the journal and of the changes. -/
def performAll : List PassStep → Bench → Option (List Json)
  | [], _ => some []
  | step :: rest, b => do
    let (shown, after) ← perform { b with world.journal := [] } step
    let answer := Json.object [
      ("result", shown), ("elapsed_ms", .nat (after.now - b.now)),
      ("journal", texts after.world.journal.reverse),
      ("stored", .object (after.world.holdings.entries.map fun e => (e.1, showStored e.2))),
      ("events", showEvents (after.world.cluster.changesSince b.world.cluster.log.length))]
    return answer :: (← performAll rest after)

end Bench

/-- Creates objects in order, whatever becomes of each. -/
def createAll (c : Cluster) (objects : List ManagedObject) : Cluster :=
  objects.foldl (fun c o => (c.create o).2) c

/-- The answers to the steps of a workflow scenario, or why the workflow is refused. -/
def answerWorkflow (j : Json) : Option Json := do
  let (dependents, plan) ← readPlan j
  let primary ← fieldOf readObject j "primary"
  let objects ← fieldOr [] (readList readObject) j "objects"
  let retry ← optionalOf readRetryInfo j "retry"
  let causes ← fieldOr [] (readList readCause) j "causes"
  let steps ← fieldOf (readList PassStep.read) j "steps"
  match plan.build with
  | .error e => return showError e
  | .ok workflow =>
    return .arr (← Bench.performAll steps {
      workflow, primary
      ctx := { primary := primary.id, retry, causes }
      world := {
        cluster := createAll {} objects
        holdings := NodeScript.holdings dependents.scripts } })

end Reconciliation.Scenario
