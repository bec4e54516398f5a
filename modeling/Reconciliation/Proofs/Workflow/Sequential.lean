import Reconciliation.Proofs.Graph.Evaluation
import Reconciliation.Workflow.Marking

/-!
A pass over a workflow without clock and concurrency. Every node has fixed answers to its
conditions and to its adapter, and the nodes are taken one after another: downward in
topological order to find the fate of each, then upward to delete what is marked, or only
upward in a cleanup pass. Passes on a clock, whose visits overlap, are compared with it.
-/
namespace Reconciliation

/-- The fixed answers of one node; `none` for a condition that it does not have. -/
structure NodeAnswers where
  check : ConditionKind → Option (Except Error Bool) := fun _ => none
  reconcile : Except Error Operations := .ok {}
  delete : Except Error Operations := .ok {}

/-- What a reconcile pass does to a node before marked nodes are deleted. -/
inductive Fate where
  | marked
  | reached (outcome : NodeOutcome)
  | blocked

namespace Fate

def isMarked : Fate → Bool
  | marked => true
  | _ => false

def outcome? : Fate → Option NodeOutcome
  | reached o => some o
  | _ => none

end Fate

namespace NodeAnswers

/-- What follows the answer to a condition that a node may not have. -/
def gated {β : Type} (answer : Option (Except Error Bool)) (failed : Error → β)
    (closed proceed : β) : β :=
  match answer with
  | none | some (.ok true) => proceed
  | some (.ok false) => closed
  | some (.error e) => failed e

/-- The outcome of a node that runs in a reconcile pass; `none` if its precondition comes out
false. -/
def reconciled (a : NodeAnswers) : Option NodeOutcome :=
  let failed := fun operations (e : Error) => some (NodeOutcome.notReady operations e.message)
  gated (a.check .activation) (failed {}) (some .skippedInactive) <|
    gated (a.check .reconcilePrecondition) (failed {}) none <|
      match a.reconcile with
      | .error e => some (.errored e)
      | .ok operations =>
        gated (a.check .ready) (failed operations)
          (some (.notReady operations "readiness condition not met"))
          (some (.succeeded operations))

/-- The outcome of a node whose dependent is to be taken away. -/
def cleanup (a : NodeAnswers) : NodeOutcome :=
  let failed := fun (e : Error) => NodeOutcome.notReady {} e.message
  gated (a.check .activation) failed .skippedInactive <|
    gated (a.check .cleanupReady) failed (.notReady {} "cleanup condition not met") <|
      match a.delete with
      | .error e => .errored e
      | .ok operations => .succeeded operations

end NodeAnswers

namespace Workflow
variable {I : Interface}

def successorsAt (w : Workflow I) (i : Nat) : List Nat :=
  ((w.nodeAt? i).map (·.successors)).getD []

/-- The fate of a node, given those of its predecessors: marked below a marked node or if its
precondition comes out false, run below nodes that all succeeded, inactive below an inactive
one. -/
def fateOf (w : Workflow I) (answers : String → NodeAnswers) (fates : Nat → Fate) (i : Nat) :
    Fate :=
  if (w.predecessorsAt i).any fun p => (fates p).isMarked then .marked
  else if (w.predecessorsAt i).all fun p => (fates p).outcome?.any NodeOutcome.isSucceeded then
    match (answers (w.nameAt i)).reconciled with
    | none => .marked
    | some o => .reached o
  else if (w.predecessorsAt i).any fun p => (fates p).outcome?.any NodeOutcome.isSkipped then
    .reached .skippedInactive
  else .blocked

/-- The cleanup outcome of a node in scope, unless a successor in scope is not settled. -/
def clearingOf (w : Workflow I) (answers : String → NodeAnswers) (scope : Nat → Bool)
    (cleared : Nat → Option NodeOutcome) (i : Nat) : Option NodeOutcome :=
  if scope i && (w.successorsAt i).all fun s =>
      !scope s || (cleared s).any NodeOutcome.isSettled then
    some (answers (w.nameAt i)).cleanup
  else none

def fates (w : Workflow I) (answers : String → NodeAnswers) : Nat → Fate :=
  evaluateAlong (w.fateOf answers) (fun _ => .blocked) w.topological

def clearing (w : Workflow I) (answers : String → NodeAnswers) (scope : Nat → Bool) :
    Nat → Option NodeOutcome :=
  evaluateAlong (w.clearingOf answers scope) (fun _ => none) w.topological.reverse

/-- The outcomes of a pass that takes one node at a time. -/
def sequential (w : Workflow I) (mode : PassMode) (answers : String → NodeAnswers) (i : Nat) :
    Option NodeOutcome :=
  match mode with
  | .cleanup => w.clearing answers (fun _ => true) i
  | .reconcile =>
    match w.fates answers i with
    | .marked =>
      (w.clearing answers (fun j => (w.fates answers j).isMarked) i).map NodeOutcome.asDeleted
    | .reached o => some o
    | .blocked => none

/-- The outcomes of a pass that takes one node at a time, by name. -/
def sequentialOutcome? (w : Workflow I) (mode : PassMode) (answers : String → NodeAnswers)
    (name : String) : Option NodeOutcome :=
  (w.nodes.findIdx? (·.node.name = name)).bind (w.sequential mode answers)

end Workflow
end Reconciliation
