import Reconciliation.Workflow.Build

/-!
What becomes of the nodes that a reconcile pass did not run.

A node whose precondition failed is marked for deletion, and so is every node below it. Other
nodes below an inactive one are inactive themselves.
-/
namespace Reconciliation.Workflow
variable {I : Interface}

def predecessorsAt (w : Workflow I) (i : Nat) : List Nat :=
  ((w.nodeAt? i).map (·.predecessors)).getD []

/-- The marked nodes among those of an order in which predecessors come first. -/
def markAlong (w : Workflow I) (completed : List (Nat × NodeOutcome)) :
    List Nat → List Nat → List Nat
  | marked, [] => marked
  | marked, i :: rest =>
    if (completed.lookup i).any NodeOutcome.isDeleted ||
        (w.predecessorsAt i).any marked.contains then
      markAlong w completed (i :: marked) rest
    else markAlong w completed marked rest

def marked (w : Workflow I) (completed : List (Nat × NodeOutcome)) : List Nat :=
  w.markAlong completed [] w.topological

/-- The nodes without an outcome that are inactive because of one above them, in order. -/
def inactiveAlong (w : Workflow I) (completed : List (Nat × NodeOutcome)) (marked : List Nat) :
    List Nat → List Nat → List Nat
  | inactive, [] => inactive
  | inactive, i :: rest =>
    let isInactive := fun p =>
      inactive.contains p || (completed.lookup p).any NodeOutcome.isSkipped
    if (completed.lookup i).isNone && !marked.contains i &&
        (w.predecessorsAt i).any isInactive then
      inactiveAlong w completed marked (inactive ++ [i]) rest
    else inactiveAlong w completed marked inactive rest

def inactive (w : Workflow I) (completed : List (Nat × NodeOutcome)) (marked : List Nat) :
    List Nat :=
  w.inactiveAlong completed marked [] w.topological

end Reconciliation.Workflow
