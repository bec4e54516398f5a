/-!
Directed graphs on the numbers below a size.

The edges keep the order in which they were added. Neighbours are listed from the newest edge
to the oldest one.
-/
namespace Reconciliation

/-- A graph by its size and its edges. -/
structure Digraph where
  size : Nat
  edges : List (Nat × Nat)
  deriving DecidableEq

namespace Digraph

/-- Adds an edge unless it is there. -/
def connect (g : Digraph) (x y : Nat) : Digraph :=
  if g.edges.contains (x, y) then g else { g with edges := g.edges ++ [(x, y)] }

def successors (g : Digraph) (x : Nat) : List Nat :=
  ((g.edges.filter fun e => e.1 = x).map (·.2)).reverse

def predecessors (g : Digraph) (x : Nat) : List Nat :=
  ((g.edges.filter fun e => e.2 = x).map (·.1)).reverse

/-- Inserts a number into an ascending list. -/
def insertAscending (x : Nat) : List Nat → List Nat
  | [] => [x]
  | y :: rest => if x ≤ y then x :: y :: rest else y :: insertAscending x rest

def ascending (xs : List Nat) : List Nat := xs.foldr insertAscending []

end Digraph
end Reconciliation
