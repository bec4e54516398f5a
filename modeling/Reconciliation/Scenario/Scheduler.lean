import Reconciliation.Scenario.Shapes
import Reconciliation.Scheduler.Engine
import Reconciliation.Settings.Codec

/-!
Scenarios of a scheduler over scripted dispatches.

A dispatch logs its start, passes a gate if there is one, sleeps, logs its end, and then crashes
or returns what the script says next for its identity. The gate lets as many dispatches pass as
it was told to, in the order of their arrival.
-/
namespace Reconciliation.Scenario

/-- What one dispatch of the script does. -/
structure Performance where
  sleep : Option Nat := none
  crashes : Bool := false
  summary : DispatchSummary := .succeeded none none

namespace Performance

def anyObject : ManagedObject := { id := ⟨"WebApp", none, "any"⟩, spec := .obj [] }

def readSummary (j : Json) : Option DispatchSummary := do
  let updated := if ← flagOf j "updated" then some anyObject else none
  match ← fieldOr "succeeded" Json.asString? j "as" with
  | "succeeded" => some (.succeeded updated none)
  | "failed" => return .failed (← fieldOf readError j "error")
  | "skipped" => some .skip
  | "finalizer_added" => some (.addedFinalizer anyObject)
  | "finalizer_removed" => some (.removedFinalizer updated)
  | _ => none

def read (j : Json) : Option Performance := do
  let summary ← readSummary j
  let reschedule ← millisOf j "reschedule_ms"
  some {
    sleep := ← optionalOf (Json.asNat? Json.maxUInt64) j "sleep_ms"
    crashes := ← flagOf j "panic"
    summary := {
      summary with
      reschedule := reschedule.or summary.reschedule
      noRetry := ← flagOf j "no_retry" } }

end Performance

/-- A scripted dispatch that is under way. -/
inductive GatedDispatch where
  | atGate (id : ResourceId)
  | asleep (id : ResourceId) (due : Nat) (p : Performance)

/-- A line of a log, with what it is sorted by. -/
structure LogLine where
  time : Nat
  id : ResourceId
  shown : Json

/-- A gate with the dispatches that wait at it, and the script of what they do behind it. -/
structure Gate where
  gated : Bool
  passes : Nat := 0
  waiting : List ResourceId := []
  script : SortedMap ResourceId (List Performance) := {}
  /-- The log, the newest line first. -/
  log : List LogLine := []

namespace Gate

abbrev Outcome := Standing GatedDispatch (Option DispatchSummary)

def write (g : Gate) (time : Nat) (id : ResourceId) (fields : List (String × Json)) : Gate :=
  { g with log := ⟨time, id, .object (("at", .nat time) :: fields)⟩ :: g.log }

def nextPerformance (g : Gate) (id : ResourceId) : Performance × Gate :=
  match g.script.get? id with
  | some (p :: rest) => (p, { g with script := g.script.insert id rest })
  | _ => ({}, g)

def finish (g : Gate) (now : Nat) (id : ResourceId) (p : Performance) : Outcome × Gate :=
  (.over (if p.crashes then none else some p.summary), g.write now id [("end", .str id.text)])

/-- Behind the gate. -/
def proceed (g : Gate) (now : Nat) (id : ResourceId) : Outcome × Gate :=
  match g.nextPerformance id with
  | (p, g) =>
    match p.sleep with
    | some (n + 1) => (.going (.asleep id (now + n + 1) p), g)
    | _ => g.finish now id p

def showStart (request : ReconciliationRequest) (retry : Option RetryInfo) :
    List (String × Json) :=
  [("start", .str request.id.text), ("causes", texts (request.causes.map TriggerCause.text)),
    ("retry", .optional showRetryInfo retry)]

def start (now : Nat) (request : ReconciliationRequest) (retry : Option RetryInfo) (g : Gate) :
    Outcome × Gate :=
  let g := g.write now request.id (showStart request retry)
  if !g.gated then g.proceed now request.id
  else
    match g.passes with
    | n + 1 => { g with passes := n }.proceed now request.id
    | 0 => (.going (.atGate request.id), { g with waiting := g.waiting ++ [request.id] })

def resume (now : Nat) (s : GatedDispatch) (g : Gate) : Outcome × Gate :=
  match s with
  | .atGate id =>
    if g.waiting.contains id then (.going s, g) else g.proceed now id
  | .asleep id due p => if due ≤ now then g.finish now id p else (.going s, g)

def host : Host GatedDispatch Gate where
  start := start
  resume := resume
  dues := fun
    | .atGate _ => []
    | .asleep _ due _ => [due]

/-- Lets further dispatches pass; the answer names those that stood at the gate. -/
def release (g : Gate) (n : Nat) : List ResourceId × Gate :=
  let freed := g.waiting.take n
  (freed, { g with passes := g.passes + (n - freed.length), waiting := g.waiting.drop n })

end Gate

/-- What happens to a scheduler or its gate next. -/
inductive SchedulerStep where
  | run
  | stop
  | submit (id : ResourceId) (cause : TriggerCause) (terminating : Bool)
  | reschedule (id : ResourceId) (delay : Span)
  | advance (millis : Nat)
  | release (n : Nat)
  | script (id : ResourceId) (steps : List Performance)

namespace SchedulerStep

def read (j : Json) : Option (SchedulerStep × Bool) := do
  let id := fieldOf readId j "id"
  let number := fieldOf (Json.asNat? Json.maxUInt64) j
  let step : SchedulerStep ← match ← fieldOf Json.asString? j "do" with
    | "run" => some .run
    | "stop" => some .stop
    | "submit" => do some (.submit (← id) (← fieldOf readCause j "cause") false)
    | "submit_terminating" => do some (.submit (← id) (← fieldOf readCause j "cause") true)
    | "reschedule" => do some (.reschedule (← id) (.ofMillis (← number "ms")))
    | "advance" => do some (.advance (← number "ms"))
    | "release" => do some (.release (← number "n"))
    | "script" => do
      some (.script (← id) (← fieldOf (readList Performance.read) j "steps"))
    | _ => none
  some (step, ← fieldOr true Json.asBool? j "settle")

def id? : SchedulerStep → Option ResourceId
  | submit id .. | reschedule id _ | script id _ => some id
  | _ => none

end SchedulerStep

abbrev GateEngine := Engine GatedDispatch Gate

namespace GateEngine

/-- A second call of the loop is one that is made while another has not returned. -/
def callRun (e : GateEngine) : GateEngine :=
  let busy := e.serving != .absent || e.turns.any fun
    | .run _ => true
    | _ => false
  e.queueTurns [.run busy]

def perform (e : GateEngine) : SchedulerStep → GateEngine
  | .run => callRun e
  | .stop => { e with scheduler := e.scheduler.stop }
  | .submit id cause terminating =>
    { e with scheduler := e.scheduler.trigger id cause terminating }
  | .reschedule id delay => { e with scheduler := e.scheduler.reschedule id delay }
  | .advance millis => e.advance Gate.host millis
  | .release n =>
    let (freed, world) := e.world.release n
    ({ e with world }).queueTurns (freed.map .resume)
  | .script id steps =>
    let script := e.world.script.insert id ((e.world.script.get? id).getD [] ++ steps)
    { e with world.script := script }

end GateEngine

def showStats (s : SchedulerStats) : Json :=
  let counters := [
    ("dispatched", s.dispatched), ("succeeded", s.succeeded), ("failed", s.failed),
    ("conflicts", s.conflicts), ("retries_scheduled", s.retriesScheduled),
    ("retries_exhausted", s.retriesExhausted), ("panicked", s.panicked),
    ("finalizers_added", s.finalizersAdded), ("finalizers_removed", s.finalizersRemoved)]
  .object ((counters.filter fun c => c.2 ≠ 0).map fun c => (c.1, .nat c.2))

def showFailure (f : FailureRecord) : Json :=
  .object [
    ("message", .str f.message), ("class", .str f.failureClass.name),
    ("attempts", .nat f.attempts.toNat), ("terminal", .bool f.terminal)]

def showIdentity (s : Scheduler) (id : ResourceId) : Json :=
  let st := s.stateOf id
  .object [
    ("processing", .bool st.inFlight),
    ("retry", .optional (fun r => showRetryInfo r.info) st.retry),
    ("timer", .bool st.timer.isSome),
    ("failure", .optional showFailure st.lastFailure)]

def showIdentities (s : Scheduler) (ids : List ResourceId) : Json :=
  .object (ids.map fun id => (id.text, showIdentity s id))

def showOutcomeOfRun : Except Error Unit → Json
  | .ok _ => .str "ok"
  | .error e => showError e

/-- Sorts lines by time and identity; lines that agree in both keep their order. -/
def sortLines (lines : List LogLine) : List LogLine :=
  lines.mergeSort fun a b =>
    a.time < b.time || (a.time == b.time && compare a.id b.id != .gt)

namespace GateEngine

/-- The lines since the last report, in order. -/
def report (step : SchedulerStep) (log : List LogLine) : Json :=
  let lines := log.reverse
  .arr ((match step with
    | .run => sortLines lines
    | _ => lines).map LogLine.shown)

def answers : List (SchedulerStep × Bool) → List ResourceId → GateEngine → List Json
  | [], _, _ => []
  | (step, settles) :: rest, named, e =>
    let named := named ++ step.id?.toList
    let e := (perform e step).refresh Gate.host
    if !settles then .str "unsettled" :: answers rest named e
    else
      let e := e.settle Gate.host Engine.turnLimit
      let shown := Json.object [
        ("log", report step e.world.log), ("stats", showStats e.scheduler.stats),
        ("ids", showIdentities e.scheduler named),
        ("tracked", .nat e.scheduler.states.size), ("running", .bool e.scheduler.running),
        ("second_run", .optional showOutcomeOfRun e.secondOutcome),
        ("finished", .optional showOutcomeOfRun e.outcome)]
      shown :: answers rest named
        { e with world.log := [], outcome := none, secondOutcome := none }

end GateEngine

/-- A configuration; the inner option is empty where settings are refused. -/
def readConfig (j : Json) : Option (Option SchedulerConfig) := do
  match j.given? "settings" with
  | some s => return (Settings.ofJson? true s).map SchedulerConfig.ofSettings
  | none =>
    let _ ← j.asFields?
    let d : SchedulerConfig := {}
    let config := {
      d with
      retry := ← overridden d.retry readPolicy j "retry"
      maxInterval := ← millisOf j "max_interval_ms" }
    return some (config.withWorkers (← wordOr d.workers j "workers"))

def readScript (read : Json → Option α) (j : Json) (k : String) :
    Option (SortedMap ResourceId (List α)) := do
  let entries ← (← fieldOr [] Json.asFields? j k).mapM fun e => do
    some (← idOfText? e.1, ← readList read e.2)
  some (.ofList entries)

/-- The answers to the steps of a scheduler scenario. -/
def answerScheduler (j : Json) : Option Json := do
  let config ← readConfig (← j.get? "config")
  let script ← readScript Performance.read j "script"
  let steps ← fieldOf (readList SchedulerStep.read) j "steps"
  let world : Gate := { gated := ← flagOf j "gated", script }
  match config with
  | none => return .object [("error", .str "Deserialize")]
  | some config =>
    return .object [
      ("workers", .nat config.workers), ("retrying", .bool config.retry.isSome),
      ("max_interval", .optional Span.toJson config.maxInterval),
      ("steps", .arr (GateEngine.answers steps [] { scheduler := { config }, world }))]

end Reconciliation.Scenario
