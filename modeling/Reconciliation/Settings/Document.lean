import Reconciliation.Settings.Codec
import Reconciliation.Toml.Printer
import Reconciliation.Toml.Reader

/-!
Settings as TOML documents.

A missing entry stands for its default and a value of `none` is printed by leaving its entry
out. Whole numbers above 2^63 - 1 cannot be printed.
-/
namespace Reconciliation.Settings

def present (k : String) (f : α → Toml.Entry) : Option α → List (String × Toml.Entry)
  | none => []
  | some a => [(k, f a)]

def word (n : UInt64) : Toml.Entry := .nat n.toNat

def entries (s : Settings) : List (String × Toml.Entry) :=
  [("name", .text s.name), ("kind", .text s.kind), ("workers", word s.workers)]
    ++ present "finalizer" .text s.finalizer
    ++ [("namespaces", .texts s.namespaces)]
    ++ present "max_reconciliation_interval_ms" word s.maxReconciliationIntervalMs
    ++ [("generation_aware", .bool s.generationAware)]

def retryEntries (r : RetrySettings) : List (String × Toml.Entry) :=
  [("enabled", .bool r.enabled)]
    ++ present "max_attempts" (fun n => .nat n.toNat) r.maxAttempts
    ++ [("initial_interval_ms", word r.initialIntervalMs), ("multiplier", .float r.multiplier)]
    ++ present "max_interval_ms" word r.maxIntervalMs

def workflowEntries (w : WorkflowSettings) : List (String × Toml.Entry) :=
  [("max_concurrency", word w.maxConcurrency),
    ("readiness_recheck_interval_ms", word w.readinessRecheckIntervalMs)]

def document (s : Settings) : Toml.Document where
  entries := s.entries
  tables := [
    ("label_selector", s.labelSelector.entries.map fun e => (e.1, .text e.2)),
    ("retry", retryEntries s.retry),
    ("workflow", workflowEntries s.workflow)]

def fits (n : UInt64) : Bool := n.toNat < Nat.pow 2 63

def printable (s : Settings) : Bool :=
  fits s.workers && s.maxReconciliationIntervalMs.all fits && fits s.retry.initialIntervalMs &&
    s.retry.maxIntervalMs.all fits && fits s.workflow.maxConcurrency &&
    fits s.workflow.readinessRecheckIntervalMs

/-- The settings as a document, where all numbers can be printed. -/
def toToml? (s : Settings) : Option String := if s.printable then some s.document.text else none

/-- Reads settings without looking at their ranges. -/
def parseToml (raw : String) : Except Error Settings :=
  match (Toml.parse? raw).bind fun t => ofJson? false t.toJson with
  | some s => .ok s
  | none => .error (.configParse "")

def fromToml (raw : String) : Except Error Settings := do
  let s ← parseToml raw
  s.validate
  return s

end Reconciliation.Settings
