import Reconciliation.Cluster.Store
import Reconciliation.Scenario.Shapes

/-!
Steps of a scenario on a cluster, and the answers that they show.
-/
namespace Reconciliation.Scenario

/-- A user's action on a cluster, or a question about it. -/
inductive ClusterStep where
  | create (object : ManagedObject)
  | get (id : ResourceId)
  | getCurrent (id : ResourceId)
  | delete (id : ResourceId)
  | deleteIgnoringMissing (id : ResourceId)
  | patch (id : ResourceId) (patch : ObjectPatch) (expected : Option Version)
  | editSpec (id : ResourceId) (specs : List Json)
  | injectConflicts (id : ResourceId) (count : Nat)
  | list (kind : String)
  | ownedBy (owner : ResourceId) (kind : String)
  | writeCount

namespace ClusterStep

/-- The specs of a row of edits: objects that count up from 0. -/
def countingSpecs (n : Nat) : List Json :=
  (List.range n).map fun i => .object [("n", .nat i)]

def read (verb : String) (j : Json) : Option ClusterStep := do
  let id := fieldOf readId j "id"
  let count := fieldOf (Json.asNat? Json.maxUInt64) j "count"
  match verb with
  | "create" => return .create (← fieldOf readObject j "object")
  | "get" => return .get (← id)
  | "get_current" => return .getCurrent (← id)
  | "delete" => return .delete (← id)
  | "delete_ignore_missing" => return .deleteIgnoringMissing (← id)
  | "patch" =>
    return .patch (← id) (← fieldOf readPatch j "patch") (← optionalOf readVersion j "expected")
  | "update_spec" => return .editSpec (← id) [← j.get? "spec"]
  | "update_many" => return .editSpec (← id) (countingSpecs (← count))
  | "inject_conflicts" => return .injectConflicts (← id) (← count)
  | "list" => return .list (← fieldOf Json.asString? j "kind")
  | "owned_by" => return .ownedBy (← fieldOf readId j "owner") (← fieldOf Json.asString? j "kind")
  | "write_count" => some .writeCount
  | _ => none

def showWrite : Except Error ManagedObject → Json
  | .ok o => showObject o
  | .error e => showError e

def editAll (id : ResourceId) : List Json → Json → Cluster → Json × Cluster
  | [], shown, c => (shown, c)
  | spec :: rest, _, c => editAll id rest (showWrite (c.editSpec id spec).1) (c.editSpec id spec).2

/-- The answer of a step at a time, and the cluster after it. -/
def perform (now : Nat) (c : Cluster) : ClusterStep → Json × Cluster
  | create o => (showWrite (c.create o).1, (c.create o).2)
  | get id => (.optional showObject (c.get? id), c)
  | getCurrent id => (showWrite (c.current id), c)
  | delete id =>
    match c.delete id (.ofMillis now) with
    | (.ok _, c) => (.str "ok", c)
    | (.error e, c) => (showError e, c)
  | deleteIgnoringMissing id =>
    match c.delete id (.ofMillis now) with
    | (outcome, c) =>
      match ignoreNotFound outcome with
      | .ok (some _) => (.str "ok", c)
      | .ok none => (.str "absent", c)
      | .error e => (showError e, c)
  | patch id p expected =>
    let seen := ((c.get? id).map (·.version)).getD ⟨0⟩
    let (outcome, c) := c.patch id (expected.getD seen) p
    (showWrite outcome, c)
  | editSpec id specs => editAll id specs .null c
  | injectConflicts id n => (.str "ok", c.injectConflicts id n)
  | list kind => (.arr ((c.ofKind kind).map showObject), c)
  | ownedBy owner kind => (.arr ((c.ownedBy owner kind).map showObject), c)
  | writeCount => (.nat c.writeCount, c)

end ClusterStep

/-- A step on a cluster whose feed is watched. -/
inductive FeedStep where
  | cluster (step : ClusterStep)
  | events
  | summary
  | rewatch

/-- A cluster and the number of changes that its watcher has seen. -/
structure Watched where
  cluster : Cluster := {}
  seen : Nat := 0

namespace Watched

/-- Takes the unread changes. -/
def drain (w : Watched) : List ChangeEvent × Watched :=
  (w.cluster.changesSince w.seen, { w with seen := w.cluster.log.length })

end Watched

namespace FeedStep

def read (j : Json) : Option FeedStep := do
  match ← fieldOf Json.asString? j "do" with
  | "events" => some .events
  | "event_summary" => some .summary
  | "rewatch" => some .rewatch
  | verb => return .cluster (← ClusterStep.read verb j)

def showSummary (events : List ChangeEvent) : Json :=
  .object [
    ("count", .nat events.length),
    ("first", .optional (fun e => .str e.summary) events.head?),
    ("last", .optional (fun e => .str e.summary) events.getLast?)]

def perform (w : Watched) : FeedStep → Json × Watched
  | cluster step =>
    let (shown, c) := step.perform 0 w.cluster
    (shown, { w with cluster := c })
  | events =>
    (.arr (w.drain.1.map fun e =>
      .object [("event", .str e.summary), ("object", showObject e.object)]), w.drain.2)
  | summary => (showSummary w.drain.1, w.drain.2)
  | rewatch => (.str "ok", { w with seen := w.cluster.log.length })

def performAll : List FeedStep → Watched → List Json
  | [], _ => []
  | step :: rest, w =>
    let (shown, w) := step.perform w
    .object [("result", shown), ("writes", .nat w.cluster.writeCount)] :: performAll rest w

end FeedStep
end Reconciliation.Scenario
