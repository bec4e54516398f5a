import Reconciliation.Task.Clocked
import Reconciliation.Workflow.Marking
import Reconciliation.Workflow.Visit
import Reconciliation.Workflow.Walk

/-!
Passes of a workflow over the dependents of a primary.

A pass walks over all nodes. When a reconcile pass has marked nodes for deletion, a cleanup
walk over them follows. In either walk, whatever can go on at a time goes on: first the visits
whose answers are due, in the order of their start, then the waiting nodes as far as there is
room.
-/
namespace Reconciliation

namespace Walk
variable {I : Interface} {σ : Type}

/-- A walk whose visits are under way on a clock. -/
abbrev Ongoing (I : Interface) := Drive (Task.Progress I Error NodeOutcome)

/-- Takes note of how far the visit of a running node has come. -/
def note (w : Walk I) (d : Ongoing I) (i : Nat) (p : Task.Progress I Error NodeOutcome) :
    Ongoing I :=
  match p.value? with
  | some o => w.finish (d.update i p) i o
  | none => d.update i p

def resumeAll (w : Walk I) (env : Environment I σ) (now : Nat) :
    List (Nat × Task.Progress I Error NodeOutcome) → Ongoing I → σ → Ongoing I × σ
  | [], d, s => (d, s)
  | (i, p) :: rest, d, s =>
    match p.resume env now s with
    | (p, s) => resumeAll w env now rest (w.note d i p) s

/-- Starts waiting nodes while there is room, at most as many as the fuel says. -/
def startAll (w : Walk I) (visit : Nat → Task I Error NodeOutcome) (env : Environment I σ)
    (now : Nat) : Nat → Ongoing I → σ → Ongoing I × σ
  | 0, d, s => (d, s)
  | fuel + 1, d, s =>
    match d.waiting with
    | [] => (d, s)
    | i :: _ =>
      if w.hasRoom d then
        match (visit i).advance env now s with
        | (p, s) => startAll w visit env now fuel (w.note (d.start i p) i p) s
      else (d, s)

/-- Everything that can go on at a time. Each node starts at most once. -/
def settle (w : Walk I) (visit : Nat → Task I Error NodeOutcome) (env : Environment I σ)
    (now : Nat) (d : Ongoing I) (s : σ) : Ongoing I × σ :=
  match w.resumeAll env now d.running d s with
  | (d, s) => w.startAll visit env now w.workflow.nodes.length d s

end Walk

/-- A pass under way. -/
structure Pass (I : Interface) where
  mode : PassMode
  primary : ManagedObject
  ctx : Context
  walk : Walk I
  drive : Walk.Ongoing I
  /-- In the walk that deletes marked nodes, the result of the walk before it. -/
  before : Option PassResult := none

namespace Workflow
variable {I : Interface}

def blankResult (w : Workflow I) (mode : PassMode) : PassResult :=
  ⟨mode, w.topologicalOrder, []⟩

/-- Records outcomes under the names of their nodes. -/
def recordAll (w : Workflow I) (r : PassResult) (completed : List (Nat × NodeOutcome)) :
    PassResult :=
  completed.foldl (fun r e => r.record (w.nameAt e.1) e.2) r

/-- The result of the walk over all nodes; marks are not outcomes. -/
def mainResult (w : Workflow I) (mode : PassMode) (completed : List (Nat × NodeOutcome)) :
    PassResult :=
  let ran := w.recordAll (w.blankResult mode) (completed.filter fun e => !e.2.isDeleted)
  match mode with
  | .cleanup => ran
  | .reconcile =>
    w.recordAll ran ((w.inactive completed (w.marked completed)).map (·, .skippedInactive))

/-- The walk over all nodes. -/
def walk (w : Workflow I) (mode : PassMode) : Walk I := { workflow := w, mode }

/-- The walk that deletes the marked nodes. -/
def removal (w : Workflow I) (marked : List Nat) : Walk I :=
  { workflow := w, mode := .cleanup, scope := marked.contains }

/-- The result after the walk that deleted the marked nodes. -/
def removalResult (w : Workflow I) (before : PassResult)
    (completed : List (Nat × NodeOutcome)) : PassResult :=
  w.recordAll before (completed.map fun e => (e.1, e.2.asDeleted))

def pass (w : Workflow I) (mode : PassMode) (primary : ManagedObject) (ctx : Context) :
    Pass I :=
  { mode, primary, ctx, walk := w.walk mode, drive := (w.walk mode).begin }

end Workflow

namespace Pass
variable {I : Interface} {σ : Type}

def workflow (p : Pass I) : Workflow I := p.walk.workflow

/-- The work on a node in the current walk. -/
def visit (p : Pass I) (i : Nat) : Task I Error NodeOutcome :=
  match p.workflow.nodeAt? i with
  | some n => n.node.visit p.walk.mode p.primary p.ctx
  | none => .done (.errored .shuttingDown)

def settleWalk (p : Pass I) (env : Environment I σ) (now : Nat) (s : σ) : Pass I × σ :=
  match p.walk.settle p.visit env now p.drive s with
  | (d, s) => ({ p with drive := d }, s)

/-- What follows a walk that is over: the result, or the walk that deletes the marked nodes. -/
def next (p : Pass I) : Standing (Pass I) PassResult :=
  let completed := p.drive.completed
  match p.before with
  | some before => .over (p.workflow.removalResult before completed)
  | none =>
    let main := p.workflow.mainResult p.mode completed
    match p.mode, p.workflow.marked completed with
    | .cleanup, _ | .reconcile, [] => .over main
    | .reconcile, marked =>
      let removal := p.workflow.removal marked
      .going { p with walk := removal, drive := removal.begin, before := some main }

/-- Everything that can go on at a time. -/
def settle (p : Pass I) (env : Environment I σ) (now : Nat) (s : σ) :
    Standing (Pass I) PassResult × σ :=
  match p.settleWalk env now s with
  | (p, s) =>
    if !p.drive.isOver then (.going p, s)
    else
      match p.next with
      | .over r => (.over r, s)
      | .going p =>
        match p.settleWalk env now s with
        | (p, s) => if p.drive.isOver then (p.next, s) else (.going p, s)

/-- The times at which the pass is to be resumed. -/
def dues (p : Pass I) : List Nat := p.drive.running.flatMap fun e => e.2.dues

/-- Lets a pass go on from one due time to the next; the fuel bounds how often. -/
def finish (env : Environment I σ) : Nat → Pass I → Nat → σ → Option PassResult × Nat × σ
  | 0, _, now, s => (none, now, s)
  | fuel + 1, p, now, s =>
    match p.settle env now s with
    | (.over r, s) => (some r, now, s)
    | (.going p, s) =>
      match p.dues.min? with
      | some due => finish env fuel p due s
      | none => (none, now, s)

end Pass

namespace Workflow
variable {I : Interface} {σ : Type}

/-- A pass in an environment that answers all calls at once. -/
def perform (w : Workflow I) (answer : (c : I.Call) → σ → I.Reply c × σ) (mode : PassMode)
    (primary : ManagedObject) (ctx : Context) (s : σ) :
    Standing (Pass I) PassResult × σ :=
  (w.pass mode primary ctx).settle (.prompt answer) 0 s

end Workflow
end Reconciliation
