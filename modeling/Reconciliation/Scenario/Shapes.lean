import Reconciliation.Cluster.Store
import Reconciliation.Dispatch.Verdict
import Reconciliation.Retry.Policy
import Reconciliation.Shutdown

/-!
How scenario documents write identities, errors, objects and patches.

A field that may be missing may as well be null, except that a null spec or status of a patch
is a value. An identity is a text of one to three parts or an object of its fields.
-/
namespace Reconciliation.Scenario

def optionalOf (read : Json → Option α) (j : Json) (k : String) : Option (Option α) :=
  match j.given? k with
  | none => some none
  | some v => (read v).map some

def fieldOf (read : Json → Option α) (j : Json) (k : String) : Option α := do read (← j.get? k)

def fieldOr (d : α) (read : Json → Option α) (j : Json) (k : String) : Option α :=
  (optionalOf read j k).map (·.getD d)

def flagOf (j : Json) (k : String) : Option Bool := fieldOr false Json.asBool? j k

def wordOr (d : Nat) (j : Json) (k : String) : Option Nat :=
  fieldOr d (Json.asNat? Json.maxUInt64) j k

def millisOf (j : Json) (k : String) : Option (Option Span) :=
  (optionalOf (Json.asNat? Json.maxUInt64) j k).map (·.map Span.ofMillis)

def readList (read : Json → Option α) (j : Json) : Option (List α) := do
  (← j.asItems?).mapM read

def readFields (read : Json → Option α) (j : Json) : Option (List (String × α)) := do
  (← j.asFields?).mapM fun e => (read e.2).map (e.1, ·)

def idOfText? (s : String) : Option ResourceId :=
  match s.splitOn "/" with
  | [name] => some ⟨"WebApp", some "default", name⟩
  | [kind, name] => some ⟨kind, none, name⟩
  | [kind, ns, name] => some ⟨kind, some ns, name⟩
  | _ => none

def readId : Json → Option ResourceId
  | .str s => idOfText? s
  | j => do
    some {
      kind := ← fieldOf Json.asString? j "kind"
      ns := ← optionalOf Json.asString? j "namespace"
      name := ← fieldOf Json.asString? j "name" }

def readVersion (j : Json) : Option Version := j.asUInt64?.map Version.mk

/-- The errors other than bundles. -/
def readLeafError (kind : String) (j : Json) : Option Error := do
  let text := fieldOf Json.asString? j
  let id := fieldOf readId j "id"
  match kind with
  | "Conflict" =>
    some (.conflict (← id) (← fieldOf readVersion j "expected") (← fieldOf readVersion j "actual"))
  | "NotFound" => return .notFound (← id)
  | "AlreadyExists" => return .alreadyExists (← id)
  | "Adapter" => return .adapter (← text "dependent") (← text "reason")
  | "ConditionEvaluation" => return .conditionEvaluation (← text "dependent") (← text "reason")
  | "Reconciler" => return .reconciler (← text "reason")
  | "DispatchPanicked" => return .dispatchPanicked (← id)
  | "CyclicGraph" => return .cyclicGraph (← fieldOf Json.readStrings? j "nodes")
  | "DuplicateNode" => return .duplicateNode (← text "name")
  | "UnknownDependency" => return .unknownDependency (← text "node") (← text "dependency")
  | "InvalidConfig" => return .invalidConfig (← text "reason")
  | "ConfigParse" => return .configParse (← text "reason")
  | "FileReadFailed" => return .fileReadFailed (← text "path") (← text "reason")
  | "ShuttingDown" => some .shuttingDown
  | _ => none

mutual

/-- The depth of nesting of bundles, at least as deep as the document. -/
def depth : Json → Nat
  | .arr items => depthOfItems items + 1
  | .obj fields => depthOfFields fields + 1
  | _ => 1

def depthOfItems : List Json → Nat
  | [] => 0
  | a :: rest => max (depth a) (depthOfItems rest)

def depthOfFields : List (String × Json) → Nat
  | [] => 0
  | (_, a) :: rest => max (depth a) (depthOfFields rest)

end

def readErrorWithin : Nat → Json → Option Error
  | 0, _ => none
  | fuel + 1, j => do
    let kind ← fieldOf Json.asString? j "kind"
    if kind = "Dependents" then
      let failures ← (← (← j.get? "failures").asItems?).mapM fun f => do
        some (← fieldOf Json.asString? f "dependent", ← readErrorWithin fuel (← f.get? "error"))
      some (.dependents failures)
    else readLeafError kind j

def readError (j : Json) : Option Error := readErrorWithin (depth j) j

def readObject (j : Json) : Option ManagedObject := do
  let terminating ← flagOf j "terminating"
  some {
    id := ← fieldOf readId j "id"
    spec := (j.given? "spec").getD (.obj [])
    status := j.given? "status"
    labels := ← fieldOr {} Json.readStringMap? j "labels"
    owner := ← optionalOf readId j "owner"
    finalizers := SortedSet.ofList (← fieldOr [] Json.readStrings? j "finalizers")
    version := ⟨← fieldOr 0 Json.asUInt64? j "version"⟩
    generation := ← fieldOr 0 Json.asUInt64? j "generation"
    deletionRequestedAt := if terminating then some (.ofMillis 0) else none }

def showObject (o : ManagedObject) : Json :=
  .object [
    ("id", .str o.id.text),
    ("spec", o.spec),
    ("status", o.status.getD .null),
    ("labels", .object (o.labels.entries.map fun e => (e.1, .str e.2))),
    ("owner", .optional (fun id => .str id.text) o.owner),
    ("finalizers", .arr (o.finalizers.toList.map .str)),
    ("version", o.version.toJson),
    ("generation", .nat o.generation.toNat),
    ("terminating", .bool o.isTerminating)]

def readPatch (j : Json) : Option ObjectPatch := do
  match ← optionalOf Json.asString? j "build" with
  | none =>
    let _ ← j.asFields?
    some {
      spec := j.get? "spec"
      status := j.get? "status"
      addFinalizer := ← optionalOf Json.asString? j "add_finalizer"
      removeFinalizer := ← optionalOf Json.asString? j "remove_finalizer" }
  | some "status" => return .setStatus ((j.get? "status").getD .null)
  | some "spec_and_status" => return .setSpec ((j.get? "spec").getD .null) (j.get? "status")
  | some "add_finalizer" => return .withFinalizer (← fieldOf Json.asString? j "finalizer")
  | some "remove_finalizer" => return .withoutFinalizer (← fieldOf Json.asString? j "finalizer")
  | some _ => none

/-- A field that is given, where an explicit null stands for none. -/
def overridden (d : Option α) (read : Json → Option α) (j : Json) (k : String) :
    Option (Option α) :=
  match j.get? k with
  | none => some d
  | some .null => some none
  | some v => (read v).map some

def readPolicy (j : Json) : Option RetryPolicy := do
  let _ ← j.asFields?
  let preset ← match ← fieldOr "default" Json.asString? j "preset" with
    | "default" => some {}
    | "none" => some RetryPolicy.never
    | "quick" => some RetryPolicy.quick
    | _ => none
  let millis := fun v => (Json.asNat? Json.maxUInt64 v).map Span.ofMillis
  some {
    maxAttempts := ← overridden preset.maxAttempts Json.asUInt32? j "max_attempts"
    initialInterval := ← fieldOr preset.initialInterval millis j "initial_interval_ms"
    multiplier := ← fieldOr preset.multiplier Json.asFloat? j "multiplier"
    maxInterval := ← overridden preset.maxInterval millis j "max_interval_ms" }

def readRetryInfo (j : Json) : Option RetryInfo := do
  some ⟨← fieldOf Json.asUInt32? j "attempt_count", ← flagOf j "last_attempt"⟩

def showRetryInfo (r : RetryInfo) : Json :=
  .object [("attempt_count", .nat r.attemptCount.toNat), ("last_attempt", .bool r.lastAttempt)]

def readCause (j : Json) : Option TriggerCause := do TriggerCause.ofName? (← j.asString?)

def readSignal : Json → Option ShutdownSignal
  | .str "Sigterm" => some .terminate
  | .str "Sigint" => some .interrupt
  | .str "Programmatic" => some .programmatic
  | .str "FeedClosed" => some .feedClosed
  | _ => none

def errorName : Error → String
  | .conflict .. => "Conflict"
  | .notFound _ => "NotFound"
  | .alreadyExists _ => "AlreadyExists"
  | .adapter .. => "Adapter"
  | .conditionEvaluation .. => "ConditionEvaluation"
  | .dependents _ => "Dependents"
  | .reconciler _ => "Reconciler"
  | .dispatchPanicked _ => "DispatchPanicked"
  | .cyclicGraph _ => "CyclicGraph"
  | .duplicateNode _ => "DuplicateNode"
  | .unknownDependency .. => "UnknownDependency"
  | .invalidConfig _ => "InvalidConfig"
  | .configParse _ => "ConfigParse"
  | .fileReadFailed .. => "FileReadFailed"
  | .shuttingDown => "ShuttingDown"

def showError (e : Error) : Json :=
  .object [("error", .str (errorName e)), ("message", .str e.message)]

def texts (l : List String) : Json := .arr (l.map .str)

end Reconciliation.Scenario
