import Mathlib.Logic.Relation
import Reconciliation.Proofs.Workflow.Declaration
import Reconciliation.Proofs.Workflow.Sequential

/-!
The shape of accepted workflows. The order lists every node once, after its predecessors; read
backward it lists every node after its successors. So what holds of a node whenever it holds of
its predecessors holds of all nodes, and so with successors. Building a workflow ensures this
shape: the neighbours of a node are those of the graph that was accepted.
-/
namespace Reconciliation

namespace Workflow
variable {I : Interface}

/-- What building a workflow ensures about its nodes and their order. -/
structure WellFormed (w : Workflow I) : Prop where
  perm : w.topological.Perm (List.range w.nodes.length)
  earlier : ∀ before i after, w.topological = before ++ i :: after →
    ∀ p ∈ w.predecessorsAt i, p ∈ before
  mutual_iff : ∀ i j, j ∈ w.predecessorsAt i ↔ i ∈ w.successorsAt j
  nodup_predecessors : ∀ i, (w.predecessorsAt i).Nodup
  nodup_successors : ∀ i, (w.successorsAt i).Nodup
  names_nodup : (w.nodes.map (·.node.name)).Nodup

/-- Only the nodes of a workflow have neighbours. -/
theorem lt_of_mem_neighbors (w : Workflow I) (f : WorkflowNode I → List Nat) (i j : Nat)
    (hj : j ∈ ((w.nodeAt? i).map f).getD []) : i < w.nodes.length := by
  unfold nodeAt? at hj
  cases hi : w.nodes[i]? with
  | none =>
    rw [hi] at hj
    cases hj
  | some n => exact (List.getElem?_eq_some_iff.mp hi).1

/-- What holds of an entry whenever it holds of the earlier ones that it needs holds of all. -/
theorem forall_along (order : List Nat) (needs : Nat → List Nat)
    (hearlier : ∀ before i after, order = before ++ i :: after → ∀ p ∈ needs i, p ∈ before)
    (P : Nat → Prop) (hstep : ∀ i ∈ order, (∀ p ∈ needs i, P p) → P i) : ∀ i ∈ order, P i := by
  have hsuffix : ∀ after before, order = before ++ after → (∀ i ∈ before, P i) →
      ∀ i ∈ order, P i := by
    intro after
    induction after with
    | nil =>
      intro before heq hbefore i hi
      rw [heq, List.append_nil] at hi
      exact hbefore i hi
    | cons k after ih =>
      intro before heq hbefore
      refine ih (before ++ [k]) (by rw [heq, List.append_assoc]; rfl) fun i hi => ?_
      rcases List.mem_append.mp hi with hi | hi
      · exact hbefore i hi
      · obtain rfl := List.mem_singleton.mp hi
        have hmem : i ∈ order := by
          rw [heq]
          exact List.mem_append_right _ List.mem_cons_self
        exact hstep i hmem fun p hp => hbefore p (hearlier before i after heq p hp)
  exact hsuffix order [] rfl fun _ h => absurd h List.not_mem_nil

/-- The second node depends on the first one, directly or through others. -/
def Below (w : Workflow I) (i j : Nat) : Prop :=
  Relation.TransGen (fun p c => p ∈ w.predecessorsAt c) i j

section
variable {w : Workflow I} (hw : w.WellFormed)
include hw

theorem WellFormed.nodup : w.topological.Nodup := hw.perm.nodup_iff.mpr List.nodup_range

theorem WellFormed.mem_topological (i : Nat) : i ∈ w.topological ↔ i < w.nodes.length := by
  rw [hw.perm.mem_iff, List.mem_range]

theorem WellFormed.predecessor_lt (i p : Nat) (hp : p ∈ w.predecessorsAt i) :
    p < w.nodes.length :=
  w.lt_of_mem_neighbors (·.successors) p i ((hw.mutual_iff i p).mp hp)

theorem WellFormed.lt_of_below (i j : Nat) (h : w.Below i j) : i < w.nodes.length := by
  induction h with
  | single hp => exact hw.predecessor_lt _ i hp
  | tail _ _ ih => exact ih

theorem WellFormed.successor_lt (i s : Nat) (hs : s ∈ w.successorsAt i) :
    s < w.nodes.length :=
  w.lt_of_mem_neighbors (·.predecessors) s i ((hw.mutual_iff s i).mpr hs)

/-- Read backward, the order lists every node after its successors. -/
theorem WellFormed.later (before : List Nat) (i : Nat) (after : List Nat)
    (heq : w.topological.reverse = before ++ i :: after) :
    ∀ s ∈ w.successorsAt i, s ∈ before := by
  intro s hs
  have horder : w.topological = after.reverse ++ i :: before.reverse := by
    rw [← List.reverse_reverse w.topological, heq]
    simp
  have hnodup := hw.nodup
  have hpred : i ∈ w.predecessorsAt s := (hw.mutual_iff s i).mpr hs
  have hmem : s ∈ w.topological := (hw.mem_topological s).mpr (hw.successor_lt i s hs)
  rw [horder, List.nodup_append] at hnodup
  rw [horder, List.mem_append, List.mem_cons] at hmem
  rcases hmem with hafter | rfl | hbefore
  · -- then the node would stand before its own predecessor
    obtain ⟨first, last, hsplit⟩ := List.append_of_mem hafter
    have hfirst : i ∈ first := by
      refine hw.earlier first s (last ++ i :: before.reverse) ?_ i hpred
      rw [horder, hsplit, List.append_assoc, List.cons_append]
    have hi : i ∈ after.reverse := by
      rw [hsplit]
      exact List.mem_append_left _ hfirst
    exact absurd rfl (hnodup.2.2 i hi i List.mem_cons_self)
  · have hself := hw.earlier after.reverse s before.reverse horder s hpred
    exact absurd rfl (hnodup.2.2 s hself s List.mem_cons_self)
  · exact List.mem_reverse.mp hbefore

/-- What holds of a node whenever it holds of its predecessors holds of all nodes. -/
theorem WellFormed.downward (P : Nat → Prop)
    (hstep : ∀ i < w.nodes.length, (∀ p ∈ w.predecessorsAt i, P p) → P i) :
    ∀ i < w.nodes.length, P i := by
  intro i hi
  refine forall_along w.topological w.predecessorsAt hw.earlier P (fun j hj hpred => ?_) i
    ((hw.mem_topological i).mpr hi)
  exact hstep j ((hw.mem_topological j).mp hj) hpred

/-- What holds of a node whenever it holds of its successors holds of all nodes. -/
theorem WellFormed.upward (P : Nat → Prop)
    (hstep : ∀ i < w.nodes.length, (∀ s ∈ w.successorsAt i, P s) → P i) :
    ∀ i < w.nodes.length, P i := by
  intro i hi
  refine forall_along w.topological.reverse w.successorsAt hw.later P (fun j hj hsucc => ?_) i
    (List.mem_reverse.mpr ((hw.mem_topological i).mpr hi))
  exact hstep j ((hw.mem_topological j).mp (List.mem_reverse.mp hj)) hsucc

theorem WellFormed.nameAt_injective (i j : Nat) (hi : i < w.nodes.length)
    (hj : j < w.nodes.length) (h : w.nameAt i = w.nameAt j) : i = j := by
  have hname : ∀ k < w.nodes.length,
      (w.nodes.map (·.node.name))[k]? = some (w.nameAt k) := by
    intro k hk
    simp [nameAt, nodeAt?, List.getElem?_eq_getElem hk]
  refine (List.getElem?_inj (by rwa [List.length_map]) hw.names_nodup).mp ?_
  rw [hname i hi, hname j hj, h]

end
end Workflow

namespace WorkflowPlan
variable {I : Interface}

/-- The neighbours of a node are those of the graph in ascending order. -/
theorem neighbors_ordered (p : WorkflowPlan I) (order : List Nat)
    (f : WorkflowNode I → List Nat) (g : Nat → List Nat)
    (hplace : ∀ i n, f (place p.graph i n) = Digraph.ascending (g i))
    (hlt : ∀ i, ∀ j ∈ g i, i < p.graph.size) (i : Nat) :
    (((p.ordered order).nodeAt? i).map f).getD [] = Digraph.ascending (g i) := by
  unfold Workflow.nodeAt? ordered
  rw [List.getElem?_mapIdx]
  cases hi : p.nodes[i]? with
  | some n => exact hplace i n
  | none =>
    have hnone : g i = [] := by
      refine List.eq_nil_iff_forall_not_mem.mpr fun j hj => ?_
      have hlt := hlt i j hj
      rw [graph_size] at hlt
      exact absurd hlt (by simpa using hi)
    rw [hnone]
    rfl

section Ordered
variable (p : WorkflowPlan I) (hg : p.graph.WellFormed) (order : List Nat)
include hg

theorem predecessorsAt_ordered (i : Nat) :
    (p.ordered order).predecessorsAt i = Digraph.ascending (p.graph.predecessors i) :=
  p.neighbors_ordered order (·.predecessors) p.graph.predecessors (fun _ _ => rfl)
    (fun i j hj => hg.target_lt j i ((p.graph.mem_predecessors i j).mp hj)) i

theorem successorsAt_ordered (i : Nat) :
    (p.ordered order).successorsAt i = Digraph.ascending (p.graph.successors i) :=
  p.neighbors_ordered order (·.successors) p.graph.successors (fun _ _ => rfl)
    (fun i j hj => hg.source_lt i j ((p.graph.mem_successors i j).mp hj)) i

theorem mem_predecessorsAt (i j : Nat) :
    j ∈ (p.ordered order).predecessorsAt i ↔ p.graph.Edge j i := by
  rw [p.predecessorsAt_ordered hg, Digraph.mem_ascending, Digraph.mem_predecessors]

theorem mem_successorsAt (i j : Nat) :
    j ∈ (p.ordered order).successorsAt i ↔ p.graph.Edge i j := by
  rw [p.successorsAt_ordered hg, Digraph.mem_ascending, Digraph.mem_successors]

end Ordered

/-- What building checks and computes is all that the shape asks for. -/
theorem build_wellFormed (p : WorkflowPlan I) (w : Workflow I) (hw : p.build = .ok w) :
    w.WellFormed ∧ w.nodes.map (·.node) = p.nodes := by
  have hverdict := p.build_verdict
  rw [hw] at hverdict
  cases hverdict with
  | accepted order hn hk hacyclic hperm hforward =>
    have hg := p.graph_wellFormed hn hk
    have hnodes := p.ordered_nodes order
    refine ⟨⟨?_, fun before i after heq j hj => ?_, fun i j => ?_, fun i => ?_, fun i => ?_, ?_⟩,
      hnodes⟩
    · rw [ordered, List.length_mapIdx]
      exact hperm
    · exact hforward before i after heq j ((p.mem_predecessorsAt hg order i j).mp hj)
    · rw [p.mem_predecessorsAt hg, p.mem_successorsAt hg]
    · rw [p.predecessorsAt_ordered hg]
      exact Digraph.nodup_ascending _ (p.graph.nodup_predecessors hg.nodup i)
    · rw [p.successorsAt_ordered hg]
      exact Digraph.nodup_ascending _ (p.graph.nodup_successors hg.nodup i)
    · have hnames : (p.ordered order).nodes.map (·.node.name) = p.nodeNames := by
        rw [nodeNames, ← hnodes, List.map_map]
        rfl
      rw [hnames]
      exact hn

end WorkflowPlan
end Reconciliation
