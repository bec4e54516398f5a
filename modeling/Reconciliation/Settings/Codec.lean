import Reconciliation.Json.Record
import Reconciliation.Settings.Basic

/-!
The JSON form of settings. Every field has a default, at every level.
-/
namespace Reconciliation

namespace RetrySettings

def fieldNames : List String :=
  ["enabled", "max_attempts", "initial_interval_ms", "multiplier", "max_interval_ms"]

def toJson (r : RetrySettings) : Json :=
  .object [
    ("enabled", .bool r.enabled),
    ("max_attempts", .optional (fun n => .nat n.toNat) r.maxAttempts),
    ("initial_interval_ms", .nat r.initialIntervalMs.toNat),
    ("multiplier", .float r.multiplier),
    ("max_interval_ms", .optional (fun n => .nat n.toNat) r.maxIntervalMs)]

def ofJson? (strict : Bool) (j : Json) : Option RetrySettings := do
  let d : RetrySettings := {}
  let field ← j.record? fieldNames 0 strict
  some {
    enabled := ← Json.defaulted d.enabled Json.asBool? (field "enabled")
    maxAttempts := ←
      Json.defaulted d.maxAttempts (Json.nullable Json.asUInt32?) (field "max_attempts")
    initialIntervalMs := ←
      Json.defaulted d.initialIntervalMs Json.asUInt64? (field "initial_interval_ms")
    multiplier := ← Json.defaulted d.multiplier Json.asFloat? (field "multiplier")
    maxIntervalMs := ←
      Json.defaulted d.maxIntervalMs (Json.nullable Json.asUInt64?) (field "max_interval_ms") }

end RetrySettings

namespace WorkflowSettings

def fieldNames : List String := ["max_concurrency", "readiness_recheck_interval_ms"]

def toJson (w : WorkflowSettings) : Json :=
  .object [
    ("max_concurrency", .nat w.maxConcurrency.toNat),
    ("readiness_recheck_interval_ms", .nat w.readinessRecheckIntervalMs.toNat)]

def ofJson? (strict : Bool) (j : Json) : Option WorkflowSettings := do
  let d : WorkflowSettings := {}
  let field ← j.record? fieldNames 0 strict
  some {
    maxConcurrency := ← Json.defaulted d.maxConcurrency Json.asUInt64? (field "max_concurrency")
    readinessRecheckIntervalMs := ←
      Json.defaulted d.readinessRecheckIntervalMs Json.asUInt64?
        (field "readiness_recheck_interval_ms") }

end WorkflowSettings

namespace Settings

def fieldNames : List String :=
  ["name", "kind", "workers", "finalizer", "namespaces", "label_selector", "retry", "workflow",
    "max_reconciliation_interval_ms", "generation_aware"]

def toJson (s : Settings) : Json :=
  .object [
    ("name", .str s.name),
    ("kind", .str s.kind),
    ("workers", .nat s.workers.toNat),
    ("finalizer", .optional .str s.finalizer),
    ("namespaces", .arr (s.namespaces.map .str)),
    ("label_selector", .object (s.labelSelector.entries.map fun e => (e.1, .str e.2))),
    ("retry", s.retry.toJson),
    ("workflow", s.workflow.toJson),
    ("max_reconciliation_interval_ms",
      .optional (fun n => .nat n.toNat) s.maxReconciliationIntervalMs),
    ("generation_aware", .bool s.generationAware)]

def ofJson? (strict : Bool) (j : Json) : Option Settings := do
  let d : Settings := {}
  let field ← j.record? fieldNames 0 strict
  some {
    name := ← Json.defaulted d.name Json.asString? (field "name")
    kind := ← Json.defaulted d.kind Json.asString? (field "kind")
    workers := ← Json.defaulted d.workers Json.asUInt64? (field "workers")
    finalizer := ← Json.defaulted d.finalizer (Json.nullable Json.asString?) (field "finalizer")
    namespaces := ← Json.defaulted d.namespaces Json.readStrings? (field "namespaces")
    labelSelector := ←
      Json.defaulted d.labelSelector Json.readStringMap? (field "label_selector")
    retry := ← Json.defaulted d.retry (RetrySettings.ofJson? strict) (field "retry")
    workflow := ← Json.defaulted d.workflow (WorkflowSettings.ofJson? strict) (field "workflow")
    maxReconciliationIntervalMs := ←
      Json.defaulted d.maxReconciliationIntervalMs (Json.nullable Json.asUInt64?)
        (field "max_reconciliation_interval_ms")
    generationAware := ←
      Json.defaulted d.generationAware Json.asBool? (field "generation_aware") }

end Settings
end Reconciliation
