import Reconciliation.Workflow.Build

/-!
Walks over the nodes of a workflow.

A reconcile walk leads from the roots down and releases a node when all its predecessors have
succeeded. A cleanup walk leads from the leaves up and releases a node when all its successors
in scope are settled. Released nodes start in the order of their release, as many at a time as
the workflow allows, and finish in any order.
-/
namespace Reconciliation

/-- A direction over a part of a workflow. -/
structure Walk (I : Interface) where
  workflow : Workflow I
  mode : PassMode
  scope : Nat → Bool := fun _ => true

/-- The state of a walk, with what is known of the visits under way. -/
structure Drive (τ : Type) where
  /-- Released nodes that have not started, in the order of their release. -/
  waiting : List Nat := []
  running : List (Nat × τ) := []
  /-- The finished nodes in the order in which they finished. -/
  completed : List (Nat × NodeOutcome) := []

namespace Drive
variable {τ : Type}

def isOver (d : Drive τ) : Bool := d.waiting.isEmpty && d.running.isEmpty

def isReleased (d : Drive τ) (i : Nat) : Bool :=
  d.waiting.contains i || d.running.any (·.1 == i) || d.completed.any (·.1 == i)

/-- Starts the node at the head of the waiting ones. -/
def start (d : Drive τ) (i : Nat) (t : τ) : Drive τ :=
  { d with waiting := d.waiting.tail, running := d.running ++ [(i, t)] }

/-- Records how far the visit of a running node has come. -/
def update (d : Drive τ) (i : Nat) (t : τ) : Drive τ :=
  { d with running := d.running.map fun e => if e.1 = i then (i, t) else e }

end Drive

namespace Walk
variable {I : Interface} {τ : Type}

def order (w : Walk I) : List Nat :=
  match w.mode with
  | .reconcile => w.workflow.topological
  | .cleanup => w.workflow.topological.reverse

def predecessors (w : Walk I) (i : Nat) : List Nat :=
  ((w.workflow.nodeAt? i).map (·.predecessors)).getD []

def successors (w : Walk I) (i : Nat) : List Nat :=
  ((w.workflow.nodeAt? i).map (·.successors)).getD []

def downstream (w : Walk I) (i : Nat) : List Nat :=
  match w.mode with
  | .reconcile => w.successors i
  | .cleanup => w.predecessors i

/-- The outcomes so far let the node start. -/
def isEligible (w : Walk I) (completed : List (Nat × NodeOutcome)) (i : Nat) : Bool :=
  w.scope i &&
    match w.mode with
    | .reconcile => (w.predecessors i).all fun p =>
      (completed.lookup p).any NodeOutcome.isSucceeded
    | .cleanup => (w.successors i).all fun s =>
      !w.scope s || (completed.lookup s).any NodeOutcome.isSettled

def begin (w : Walk I) : Drive τ := { waiting := w.order.filter (w.isEligible []) }

/-- Records the outcome of a node and releases the nodes that it held back. -/
def finish (w : Walk I) (d : Drive τ) (i : Nat) (o : NodeOutcome) : Drive τ :=
  let d := {
    d with
    running := d.running.filter (·.1 ≠ i)
    completed := d.completed ++ [(i, o)] }
  let released := (w.downstream i).filter fun j => !d.isReleased j && w.isEligible d.completed j
  { d with waiting := d.waiting ++ released }

def hasRoom (w : Walk I) (d : Drive τ) : Bool := d.running.length < w.workflow.maxConcurrency

end Walk
end Reconciliation
