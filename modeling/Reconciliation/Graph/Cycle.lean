import Reconciliation.Graph.Basic

/-!
A cycle through the strong component of a node.

From the node the walk always goes on to the least successor in the component, until a node
comes up again; the part since its first visit is the cycle.
-/
namespace Reconciliation.Digraph

/-- One more step of reachability along the edges. -/
def spread (next : Nat → List Nat) : Nat → List Nat → List Nat → List Nat
  | 0, _, seen => seen
  | _ + 1, [], seen => seen
  | fuel + 1, x :: rest, seen =>
    if seen.contains x then spread next fuel rest seen
    else spread next fuel (next x ++ rest) (x :: seen)

def reachable (next : Nat → List Nat) (fuel x : Nat) : List Nat := spread next fuel [x] []

/-- The nodes that a node reaches and is reached from, itself among them. -/
def component (g : Digraph) (x : Nat) : List Nat :=
  let fuel := g.size + g.edges.length + 2
  let forward := reachable g.successors fuel x
  (reachable g.predecessors fuel x).filter forward.contains

/-- Follows least successors within `inside`; the path so far is in reverse order. -/
def follow (g : Digraph) (inside : List Nat) : Nat → List Nat → List Nat
  | 0, path => path.reverse
  | _ + 1, [] => []
  | fuel + 1, x :: path =>
    match ((g.successors x).filter inside.contains).min? with
    | none => (x :: path).reverse
    | some y =>
      if (x :: path).contains y then
        (x :: path).reverse.dropWhile (· ≠ y) ++ [y]
      else follow g inside fuel (y :: x :: path)

/-- The cycle found from a node of it; its first and last nodes are the same. -/
def cycleFrom (g : Digraph) (x : Nat) : List Nat := follow g (g.component x) (g.size + 1) [x]

end Reconciliation.Digraph
