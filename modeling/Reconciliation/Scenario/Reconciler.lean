import Reconciliation.Dispatch.Process
import Reconciliation.Scenario.Node
import Reconciliation.Scenario.Scheduler
import Reconciliation.WebApp.Workflow

/-!
Scripted reconcilers.

A reconciler logs each call and then does what the script says next for the primary and the
call: it sleeps, edits or deletes the primary like a user, crashes, or returns a verdict.
-/
namespace Reconciliation.Scenario

/-- What a reconciler does in one call. -/
structure Verdict where
  sleep : Option Nat := none
  userEdit : Option Json := none
  userDelete : Bool := false
  crashes : Bool := false
  error : Option Error := none
  spec : Option Json := none
  status : Option Json := none
  reschedule : Option Span := none
  noRetry : Bool := false

/-- The verdicts on one primary, by the call that they answer. -/
structure VerdictScript where
  reconcile : List Verdict := []
  cleanup : List Verdict := []
  errorStatus : List Verdict := []

namespace Verdict

def read (j : Json) : Option Verdict := do
  let _ ← j.asFields?
  some {
    sleep := ← optionalOf (Json.asNat? Json.maxUInt64) j "sleep_ms"
    userEdit := j.get? "user_edit"
    userDelete := ← flagOf j "user_delete"
    crashes := ← flagOf j "panic"
    error := ← optionalOf readError j "error"
    spec := j.get? "spec"
    status := j.get? "status"
    reschedule := ← millisOf j "reschedule_ms"
    noRetry := ← flagOf j "no_retry" }

def update (v : Verdict) : Except Error ReconcileVerdict :=
  match v.error with
  | some e => .error e
  | none =>
    let update := match v.spec, v.status with
      | some spec, status => .resource spec status
      | none, some status => .status status
      | none, none => .none
    .ok { update, reschedule := v.reschedule }

def deletion (v : Verdict) : Except Error CleanupVerdict :=
  match v.error with
  | some e => .error e
  | none => .ok ((v.reschedule.map CleanupVerdict.reschedule).getD .proceed)

def errorStatus (v : Verdict) : FailureVerdict :=
  { status := v.status, retry := !v.noRetry, reschedule := v.reschedule }

end Verdict

namespace VerdictScript

def read (j : Json) : Option VerdictScript := do
  let verdicts := fieldOr [] (readList Verdict.read) j
  some {
    reconcile := ← verdicts "reconcile"
    cleanup := ← verdicts "cleanup"
    errorStatus := ← verdicts "error_status" }

def append (a b : VerdictScript) : VerdictScript where
  reconcile := a.reconcile ++ b.reconcile
  cleanup := a.cleanup ++ b.cleanup
  errorStatus := a.errorStatus ++ b.errorStatus

/-- The next verdict for a call, and the script after it. -/
def next (s : VerdictScript) : PrimaryCall → Option Verdict × VerdictScript
  | .reconcile .. => (s.reconcile.head?, { s with reconcile := s.reconcile.tail })
  | .cleanup .. => (s.cleanup.head?, { s with cleanup := s.cleanup.tail })
  | .errorStatus .. => (s.errorStatus.head?, { s with errorStatus := s.errorStatus.tail })
  | _ => (none, s)

end VerdictScript

/-- What a reconciler does without a script: nothing in particular, what the one for web
applications does, or no more than it must. -/
inductive Character where
  | scripted
  | webApp
  | minimal
  deriving DecidableEq

def Character.read (j : Json) : Option Character := do
  match ← j.asString? with
  | "scripted" => some .scripted
  | "webapp" => some .webApp
  | "minimal" => some .minimal
  | _ => none

/-- A world with a scripted reconciler in it. -/
structure Cast where
  world : World := {}
  character : Character := .scripted
  secondaryKind : String := "Pod"
  script : SortedMap ResourceId VerdictScript := {}
  /-- The verdicts of the calls that have not been answered. -/
  chosen : SortedMap ResourceId (Option Verdict) := {}
  /-- The log, the newest line first. -/
  log : List LogLine := []

namespace Cast

def verb : PrimaryCall → String
  | .reconcile .. => "reconcile"
  | .cleanup .. => "cleanup"
  | .errorStatus .. => "error_status"
  | .observe _ => "observe"
  | .patch .. => "patch"

def errorText : PrimaryCall → Json
  | .errorStatus _ _ e => .str e.message
  | _ => .null

/-- The primary and the context of a call of the reconciler. -/
def subject? : PrimaryCall → Option (ManagedObject × Context)
  | .reconcile primary ctx => some (primary, ctx)
  | .cleanup primary ctx => some (primary, ctx)
  | .errorStatus primary ctx _ => some (primary, ctx)
  | _ => none

def showPass (r : PassResult) : Json :=
  .object [
    ("order", texts r.completionOrder), ("all_ready", .bool r.allReady),
    ("pending", texts r.pendingNodes), ("deleted", texts r.deleted),
    ("skipped", texts r.skipped), ("unreached", texts r.unreached)]

def secondaries (c : Cast) (owner : ResourceId) (kind : String) : Nat :=
  (c.world.cluster.ownedBy owner kind).length

def showCall (now : Nat) (c : Cast) (call : PrimaryCall) (primary : ManagedObject)
    (ctx : Context) : LogLine :=
  let current := c.world.cluster.get? primary.id
  let shown := Json.object [
    ("at", .nat now), ("call", .str (verb call)), ("id", .str primary.id.text),
    ("version", primary.version.toJson), ("generation", .nat primary.generation.toNat),
    ("causes", texts (ctx.causes.map TriggerCause.text)),
    ("retry", .optional showRetryInfo ctx.retry), ("last_attempt", .bool ctx.isLastAttempt),
    ("workflow", .optional showPass ctx.passResult),
    ("secondaries", .nat (c.secondaries ctx.primary c.secondaryKind)),
    ("current", .optional (fun o => o.version.toJson) current), ("error", errorText call)]
  ⟨now, primary.id, shown⟩

/-- A reconciler that does no more than it must is asked only to reconcile. -/
def answersTo (c : Cast) : PrimaryCall → Bool
  | .reconcile .. => true
  | .cleanup .. | .errorStatus .. => c.character ≠ .minimal
  | _ => false

def issue (now : Nat) (call : PrimaryCall) (c : Cast) : Nat × Cast :=
  match subject? call with
  | none => (0, c)
  | some (primary, ctx) =>
    if !c.answersTo call then (0, { c with chosen := c.chosen.insert primary.id none })
    else
      let (verdict, script) := ((c.script.get? primary.id).getD {}).next call
      ((verdict.bind (·.sleep)).getD 0, {
        c with
        script := c.script.insert primary.id script
        chosen := c.chosen.insert primary.id verdict
        log := c.showCall now call primary ctx :: c.log })

/-- What the script does to the primary before it returns a verdict. -/
def interfere (now : Nat) (c : Cast) (id : ResourceId) (v : Verdict) : Cast :=
  let edited := match v.userEdit with
    | some spec => (c.world.cluster.editSpec id spec).2
    | none => c.world.cluster
  let cluster := if v.userDelete then (edited.delete id (.ofMillis now)).2 else edited
  { c with world.cluster := cluster }

/-- The verdict chosen for a call on a primary. -/
def verdictOn (now : Nat) (c : Cast) (id : ResourceId) : Option Verdict × Cast :=
  match (c.chosen.get? id).getD none with
  | some v => (some v, c.interfere now id v)
  | none => (none, c)

def crashes (v : Option Verdict) : Bool := v.any (·.crashes)

def answer (now : Nat) (call : PrimaryCall) (c : Cast) : Option call.Reply × Cast :=
  match call with
  | .observe id => (some (c.world.cluster.get? id), c)
  | .patch id expected p =>
    let (r, cluster) := c.world.cluster.patch id expected p
    (some r, { c with world.cluster := cluster })
  | .reconcile primary ctx =>
    let (v, c) := c.verdictOn now primary.id
    let verdict := match v, c.character with
      | some v, _ => v.update
      | none, .webApp => WebApp.reconcile primary ctx (c.secondaries ctx.primary "Pod")
      | none, _ => .ok {}
    (if crashes v then none else some verdict, c)
  | .cleanup primary _ =>
    let (v, c) := c.verdictOn now primary.id
    let verdict := match v with
      | some v => v.deletion
      | none => .ok .proceed
    (if crashes v then none else some verdict, c)
  | .errorStatus primary ctx e =>
    let (v, c) := c.verdictOn now primary.id
    let verdict := match v, c.character with
      | some v, _ => v.errorStatus
      | none, .webApp => WebApp.errorStatus primary ctx e
      | none, _ => {}
    (if crashes v then none else some verdict, c)

def nodes : Environment fixtures Cast where
  issue := fun now call c =>
    let (delay, world) := World.issue now call c.world
    (delay, { c with world })
  answer := fun now call c =>
    let (r, world) := World.answer now call c.world
    (r, { c with world })

def handlers : Handlers fixtures Cast := ⟨nodes, issue, answer⟩

end Cast
end Reconciliation.Scenario
