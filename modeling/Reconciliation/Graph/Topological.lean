import Reconciliation.Graph.Basic

/-!
Topological order by depth-first search.

The search keeps a stack on which a node may stand several times. A node is discovered when it
is first on top and finished when it is next on top; nodes in the reverse order of finishing
are the candidate order. It is checked by a search against the edges from each node in turn,
which reaches nothing but the node itself unless there is a cycle.
-/
namespace Reconciliation.Digraph

/-- A search: the nodes seen, and those finished with the latest one first. -/
structure Search where
  discovered : List Nat := []
  finished : List Nat := []

/-- Works the stack off; an edge from a node to itself ends the search with that node. -/
def explore (g : Digraph) : Nat → List Nat → Search → Except Nat Search
  | 0, _, s => .ok s
  | _ + 1, [], s => .ok s
  | fuel + 1, x :: rest, s =>
    if s.discovered.contains x then
      let finished := if s.finished.contains x then s.finished else x :: s.finished
      explore g fuel rest { s with finished }
    else
      let successors := g.successors x
      if successors.contains x then .error x
      else
        let discovered := x :: s.discovered
        let fresh := successors.filter fun y => !discovered.contains y
        explore g fuel (fresh.reverse ++ x :: rest) { s with discovered }

/-- Each node is discovered once and each edge puts a node on the stack at most once. -/
def exploreFuel (g : Digraph) : Nat := 2 * g.size + g.edges.length + 2

/-- Starts a search at each node not yet seen. -/
def exploreAll (g : Digraph) : List Nat → Search → Except Nat Search
  | [], s => .ok s
  | x :: rest, s =>
    if s.discovered.contains x then exploreAll g rest s
    else do
      let s ← explore g g.exploreFuel [x] s
      exploreAll g rest s

/-- The nodes that a search against the edges visits, in order, and all nodes seen by then. -/
def backward (g : Digraph) : Nat → List Nat → List Nat → List Nat → List Nat × List Nat
  | 0, _, seen, visited => (visited, seen)
  | _ + 1, [], seen, visited => (visited, seen)
  | fuel + 1, x :: rest, seen, visited =>
    if seen.contains x then backward g fuel rest seen visited
    else
      let seen := x :: seen
      let fresh := (g.predecessors x).filter fun y => !seen.contains y
      backward g fuel (fresh.reverse ++ rest) seen (visited ++ [x])

/-- The first node that a search reaches besides its start. -/
def firstCaught (g : Digraph) : List Nat → List Nat → Option Nat
  | [], _ => none
  | x :: rest, seen =>
    match backward g g.exploreFuel [x] seen [] with
    | (_ :: y :: _, _) => some y
    | (_, seen) => firstCaught g rest seen

/-- An order in which every edge leads forward, or a node on a cycle. -/
def topological (g : Digraph) : Except Nat (List Nat) := do
  let s ← exploreAll g (List.range g.size) {}
  match firstCaught g s.finished [] with
  | some x => .error x
  | none => .ok s.finished

end Reconciliation.Digraph
