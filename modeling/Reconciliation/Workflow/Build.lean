import Reconciliation.Dependent.Node
import Reconciliation.Graph.Cycle
import Reconciliation.Graph.Topological

/-!
Workflows: acyclic graphs of dependents.

A declaration is refused for a repeated name, then for a dependency on an unknown name, then
for a cycle. An accepted one lists its nodes in declaration order, with the positions of their
neighbours in ascending order, and has a topological order.
-/
namespace Reconciliation

/-- A node with its place in the graph. -/
structure WorkflowNode (I : Interface) where
  node : Node I
  predecessors : List Nat
  successors : List Nat

/-- An accepted workflow. -/
structure Workflow (I : Interface) where
  name : String
  nodes : List (WorkflowNode I)
  topological : List Nat
  maxConcurrency : Nat
  positive : 0 < maxConcurrency

/-- How many nodes may run at a time unless a declaration says otherwise. -/
def usualConcurrency : Nat := 4

theorem usualConcurrency_pos : 0 < usualConcurrency := Nat.succ_pos 3

/-- What a workflow is built from. -/
structure WorkflowPlan (I : Interface) where
  name : String
  nodes : List (Node I)
  maxConcurrency : Nat := usualConcurrency
  positive : 0 < maxConcurrency := by exact usualConcurrency_pos

namespace WorkflowPlan
variable {I : Interface}

/-- At least one node may run at a time. -/
def withMaxConcurrency (p : WorkflowPlan I) (n : Nat) : WorkflowPlan I :=
  { p with
    maxConcurrency := max n 1
    positive := Nat.lt_of_lt_of_le Nat.one_pos (Nat.le_max_right n 1) }

/-- The first name that was declared before. -/
def repeatedName? : List String → List String → Option String
  | _, [] => none
  | seen, name :: rest =>
    if seen.contains name then some name else repeatedName? (name :: seen) rest

def unknownDependency? (names : List String) : List (Node I) → Option (String × String)
  | [] => none
  | n :: rest =>
    match n.dependsOn.find? fun d => !names.contains d with
    | some d => some (n.name, d)
    | none => unknownDependency? names rest

/-- The edges lead from each dependency to its dependents, in the order of declaration. -/
def graph (p : WorkflowPlan I) : Digraph :=
  let names := p.nodes.map (·.name)
  p.nodes.foldl (fun g n =>
    n.dependsOn.foldl (fun g d => g.connect (names.idxOf d) (names.idxOf n.name)) g)
    ⟨p.nodes.length, []⟩

def place (g : Digraph) (position : Nat) (n : Node I) : WorkflowNode I where
  node := n
  predecessors := Digraph.ascending (g.predecessors position)
  successors := Digraph.ascending (g.successors position)

def build (p : WorkflowPlan I) : Except Error (Workflow I) :=
  let names := p.nodes.map (·.name)
  match repeatedName? [] names, unknownDependency? names p.nodes with
  | some name, _ => .error (.duplicateNode name)
  | none, some (node, dependency) => .error (.unknownDependency node dependency)
  | none, none =>
    match p.graph.topological with
    | .error x => .error (.cyclicGraph ((p.graph.cycleFrom x).map fun i => names.getD i ""))
    | .ok topological =>
      .ok {
        name := p.name
        nodes := p.nodes.mapIdx fun i n => place p.graph i n
        topological
        maxConcurrency := p.maxConcurrency
        positive := p.positive }

end WorkflowPlan

namespace Workflow
variable {I : Interface}

def nodeAt? (w : Workflow I) (i : Nat) : Option (WorkflowNode I) := w.nodes[i]?

def nameAt (w : Workflow I) (i : Nat) : String := ((w.nodeAt? i).map (·.node.name)).getD ""

def names (w : Workflow I) (is : List Nat) : List String := is.map w.nameAt

def topologicalOrder (w : Workflow I) : List String := w.names w.topological

def find? (w : Workflow I) (name : String) : Option (WorkflowNode I) :=
  w.nodes.find? (·.node.name = name)

def dependenciesOf? (w : Workflow I) (name : String) : Option (List String) :=
  (w.find? name).map fun n => w.names n.predecessors

def dependentsOf? (w : Workflow I) (name : String) : Option (List String) :=
  (w.find? name).map fun n => w.names n.successors

def capabilityOf? (w : Workflow I) (name : String) : Option Capability :=
  (w.find? name).map (·.node.capability)

def hasMutatingNodes (w : Workflow I) : Bool := w.nodes.any (·.node.capability.isMutating)

end Workflow
end Reconciliation
