import Mathlib.Algebra.BigOperators.Group.Finset.Piecewise
import Mathlib.Algebra.Order.BigOperators.Group.Finset
import Mathlib.Data.List.Sort
import Mathlib.Logic.Relation
import Reconciliation.Graph.Basic

/-!
The edges of a graph as a relation. The neighbours of a node are listed without repetition if
the edges are, and sorting them changes nothing but their order. Depth-first search and the
construction of a cycle are stated by this relation.
-/
namespace Reconciliation.Digraph

def Edge (g : Digraph) (x y : Nat) : Prop := (x, y) ∈ g.edges

/-- The edges lead between nodes of the graph, each listed once. -/
structure WellFormed (g : Digraph) : Prop where
  source_lt : ∀ x y, g.Edge x y → x < g.size
  target_lt : ∀ x y, g.Edge x y → y < g.size
  nodup : g.edges.Nodup

def Acyclic (g : Digraph) : Prop := ∀ x, ¬ Relation.TransGen g.Edge x x

theorem mem_successors (g : Digraph) (x y : Nat) : y ∈ g.successors x ↔ g.Edge x y := by
  simp [successors, Edge]

theorem mem_predecessors (g : Digraph) (x y : Nat) : y ∈ g.predecessors x ↔ g.Edge y x := by
  simp [predecessors, Edge]

theorem nodup_successors (g : Digraph) (hg : g.edges.Nodup) (x : Nat) :
    (g.successors x).Nodup := by
  unfold successors
  rw [List.nodup_reverse]
  refine (hg.filter _).map_on ?_
  rintro ⟨a, b⟩ ha ⟨a', b'⟩ ha' rfl
  simp only [List.mem_filter, decide_eq_true_eq] at ha ha'
  rw [ha.2, ha'.2]

theorem nodup_predecessors (g : Digraph) (hg : g.edges.Nodup) (x : Nat) :
    (g.predecessors x).Nodup := by
  unfold predecessors
  rw [List.nodup_reverse]
  refine (hg.filter _).map_on ?_
  rintro ⟨a, b⟩ ha ⟨a', b'⟩ ha' rfl
  simp only [List.mem_filter, decide_eq_true_eq] at ha ha'
  rw [ha.2, ha'.2]

theorem length_successors (g : Digraph) (x : Nat) :
    (g.successors x).length = g.edges.countP fun e => e.1 = x := by
  simp [successors, List.countP_eq_length_filter]

/-- Together the nodes have no more successors than there are edges. -/
theorem sum_length_successors_le (g : Digraph) (s : Finset Nat) :
    ∑ x ∈ s, (g.successors x).length ≤ g.edges.length := by
  simp only [length_successors]
  induction g.edges with
  | nil => simp
  | cons e rest ih =>
    simp only [List.countP_cons, List.length_cons, Finset.sum_add_distrib]
    have hone : ∑ x ∈ s, (if decide (e.1 = x) = true then 1 else 0) ≤ 1 := by
      simp only [decide_eq_true_eq, Finset.sum_ite_eq]
      split <;> simp
    omega

@[simp] theorem size_connect (g : Digraph) (x y : Nat) : (g.connect x y).size = g.size := by
  unfold connect
  split <;> rfl

theorem edge_connect (g : Digraph) (x y a b : Nat) :
    (g.connect x y).Edge a b ↔ g.Edge a b ∨ (a = x ∧ b = y) := by
  unfold connect Edge
  split
  · rename_i h
    constructor
    · exact Or.inl
    · rintro (hab | ⟨rfl, rfl⟩)
      · exact hab
      · simpa using h
  · simp

theorem nodup_connect (g : Digraph) (hg : g.edges.Nodup) (x y : Nat) :
    (g.connect x y).edges.Nodup := by
  unfold connect
  split
  · exact hg
  · rename_i h
    rw [List.nodup_append]
    refine ⟨hg, List.nodup_singleton _, ?_⟩
    rintro e he e' he' rfl
    rw [List.mem_singleton] at he'
    subst he'
    exact h (by simpa using he)

theorem insertAscending_eq (x : Nat) (xs : List Nat) :
    insertAscending x xs = xs.orderedInsert (· ≤ ·) x := by
  induction xs with
  | nil => rfl
  | cons y rest ih => simp only [insertAscending, List.orderedInsert, ih]

/-- Sorting the neighbours is insertion sort. -/
theorem ascending_eq (xs : List Nat) : ascending xs = xs.insertionSort (· ≤ ·) := by
  unfold ascending List.insertionSort
  congr 1
  funext x ys
  exact insertAscending_eq x ys

theorem mem_ascending (xs : List Nat) (x : Nat) : x ∈ ascending xs ↔ x ∈ xs := by
  rw [ascending_eq]
  exact (List.perm_insertionSort (· ≤ ·) xs).mem_iff

theorem pairwise_lt_ascending (xs : List Nat) (hxs : xs.Nodup) :
    (ascending xs).Pairwise (· < ·) := by
  rw [ascending_eq]
  have hsorted := List.pairwise_insertionSort (· ≤ ·) xs
  have hnodup := (List.perm_insertionSort (· ≤ ·) xs).nodup_iff.mpr hxs
  exact (hsorted.and hnodup).imp fun h => Nat.lt_of_le_of_ne h.1 h.2

theorem nodup_ascending (xs : List Nat) (hxs : xs.Nodup) : (ascending xs).Nodup :=
  (pairwise_lt_ascending xs hxs).imp fun h => Nat.ne_of_lt h

end Reconciliation.Digraph
