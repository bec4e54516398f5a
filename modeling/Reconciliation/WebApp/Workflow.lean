import Reconciliation.Dependent.Node
import Reconciliation.Dependent.Owned
import Reconciliation.Dispatch.Verdict
import Reconciliation.WebApp.Settings
import Reconciliation.Workflow.Build

/-!
The dependents of a web application, one config map, a set of pods and an ingress, and its
reconciler, which reports on the pods in the status.

The pods wait for the config map and the ingress waits for the pods. The ingress exists only
while the application is exposed.
-/
namespace Reconciliation.WebApp

def maxReplicas : Nat := 32

def replicasRule : String := "spec.replicas must be an integer in 0..=" ++ toString maxReplicas

/-- One replica unless the spec says otherwise. -/
def replicas (primary : ManagedObject) : Except Error Nat :=
  match primary.spec.get? "replicas" with
  | none => .ok 1
  | some v =>
    match v.asNat? maxReplicas with
    | some n => .ok n
    | none => .error (.reconciler (replicasRule ++ ", got " ++ v.render))

def isExposed (primary : ManagedObject) : Bool :=
  ((primary.spec.get? "expose").bind Json.asBool?).getD false

def configName (primary : ManagedObject) : String := primary.id.name ++ "-config"

def configTemplate : Owned.Template := fun primary =>
  let greeting := (primary.spec.get? "greeting").getD (.str "hello")
  .ok (configName primary, .object [("greeting", greeting)])

def podName (primary : ManagedObject) (index : Nat) : String :=
  primary.id.name ++ "-" ++ toString index

def podSpec (primary : ManagedObject) : Json :=
  .object [("image", .str "webapp:latest"), ("config", .str (configName primary))]

def podTemplate : Owned.SetTemplate := fun primary =>
  (replicas primary).map fun n =>
    .ofList ((List.range n).map fun i => (podName primary i, podSpec primary))

def ingressTemplate : Owned.Template := fun primary =>
  .ok (primary.id.name, .object [("backend", .str primary.id.name), ("port", .nat 8080)])

variable {I : Interface}

def configNode (client : Client I) : Node I :=
  Dependent.toNode {
    name := "config"
    adapter := Owned.object client .mutating "ConfigMap" configTemplate
    condition? := fun
      | .ready => some .present
      | _ => none }

def podsNode (client : Client I) : Node I :=
  Dependent.toNode {
    name := "pods"
    dependsOn := ["config"]
    adapter := Owned.objects client .mutating "Pod" podTemplate }

def ingressNode (client : Client I) : Node I :=
  Dependent.toNode {
    name := "ingress"
    dependsOn := ["pods"]
    adapter := Owned.object client .mutating "Ingress" ingressTemplate
    condition? := fun
      | .reconcilePrecondition => some (.pure fun primary _ _ => isExposed primary)
      | _ => none }

def workflowPlan (client : Client I) : WorkflowPlan I where
  name := "webapp"
  nodes := [configNode client, podsNode client, ingressNode client]

/-- The status after a pass that left so many pods. -/
def status (primary : ManagedObject) (desired pods : Nat) (ready : Bool) : Json :=
  .object [
    ("observedGeneration", .nat primary.generation.toNat), ("replicas", .nat desired),
    ("currentReplicas", .nat pods), ("ready", .bool ready)]

def reconcile (primary : ManagedObject) (ctx : Context) (pods : Nat) :
    Except Error ReconcileVerdict := do
  let desired ← replicas primary
  let ready := ctx.passResult.all PassResult.allReady
  return { update := .status (status primary desired pods ready) }

def errorStatus (primary : ManagedObject) (ctx : Context) (e : Error) : FailureVerdict where
  status := some (.object [
    ("observedGeneration", .nat primary.generation.toNat), ("ready", .bool false),
    ("error", .str e.message),
    ("attempts", .nat ((ctx.retry.map (·.attemptCount.toNat)).getD 0))])

end Reconciliation.WebApp
