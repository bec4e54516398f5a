import Reconciliation.Proofs.Graph.Circuit
import Reconciliation.Proofs.Workflow.Declaration

/-!
The cycle that a refused declaration names. Sorting the graph of a cyclic declaration fails at a
node on a cycle, and the walk through its component closes; the names of the nodes on the way are
told. They are distinct because the names of a declaration are.
-/
namespace Reconciliation

/-- Only the last member of a chain need not be followed by another one. -/
theorem Digraph.source_of_chain (g : Digraph) (cycle : List Nat) (h : cycle.IsChain g.Edge)
    (x : Nat) (hx : x ∈ cycle.dropLast) : ∃ y, g.Edge x y := by
  induction cycle with
  | nil => cases hx
  | cons y rest ih =>
    cases rest with
    | nil => cases hx
    | cons z rest =>
      obtain ⟨hedge, hrest⟩ := List.isChain_cons_cons.mp h
      rcases List.mem_cons.mp hx with rfl | hx
      · exact ⟨z, hedge⟩
      · exact ih hrest hx

namespace WorkflowPlan
variable {I : Interface}

/-- The node of the second name declares a dependency on the first name. -/
def Requires (p : WorkflowPlan I) (x y : String) : Prop :=
  ∃ n ∈ p.nodes, n.name = y ∧ x ∈ n.dependsOn

/-- The name of the node at a position. -/
def nameAt (p : WorkflowPlan I) (i : Nat) : String := p.nodeNames.getD i ""

theorem nameAt_eq (p : WorkflowPlan I) (i : Nat) (n : Node I) (h : p.nodes[i]? = some n) :
    p.nameAt i = n.name := by
  simp [nameAt, nodeNames, List.getD, h]

theorem nameAt_inj (p : WorkflowPlan I) (hnodup : p.nodeNames.Nodup) (i j : Nat)
    (hi : i < p.nodes.length) (hj : j < p.nodes.length) (h : p.nameAt i = p.nameAt j) : i = j := by
  have hidx : ∀ k, k < p.nodes.length → k = p.nodeNames.idxOf (p.nameAt k) := by
    intro k hk
    have hget := List.getElem?_eq_getElem hk
    rw [p.nameAt_eq k _ hget]
    exact ((p.idxOf_name hnodup k _).mp hget).2
  rw [hidx i hi, hidx j hj, h]

theorem requires_of_edge (p : WorkflowPlan I) (hnodup : p.nodeNames.Nodup) (hknown : p.Known)
    (i j : Nat) (h : p.graph.Edge i j) : p.Requires (p.nameAt i) (p.nameAt j) := by
  obtain ⟨n, m, hn, hm, hd⟩ := (p.graph_edge_iff hnodup hknown j i).mp h
  rw [p.nameAt_eq i m hm, p.nameAt_eq j n hn]
  exact ⟨n, List.mem_of_getElem? hn, rfl, hd⟩

/-- A cyclic declaration is refused with the cycle that is found from a node on a cycle. -/
theorem build_of_cyclic (p : WorkflowPlan I) (hnodup : p.nodeNames.Nodup) (hknown : p.Known)
    (hcyclic : p.Cyclic) :
    ∃ x, Relation.TransGen p.graph.Edge x x ∧
      p.build = .error (.cyclicGraph ((p.graph.cycleFrom x).map p.nameAt)) := by
  have hrepeated : repeatedName? [] (p.nodes.map (·.name)) = none :=
    (repeatedName?_eq_none_iff [] p.nodeNames).mpr ⟨hnodup, fun _ _ => List.not_mem_nil⟩
  have hunknown : unknownDependency? (p.nodes.map (·.name)) p.nodes = none :=
    (unknownDependency?_eq_none_iff p.nodeNames p.nodes).mpr hknown
  have hwf := p.graph_wellFormed hnodup hknown
  rcases p.graph.topological_spec hwf with ⟨order, _, hperm, hforward⟩ | ⟨x, hx, hround⟩
  · have hacyclic := hforward.acyclic fun x y hedge =>
      hperm.mem_iff.mpr (List.mem_range.mpr (hwf.target_lt x y hedge))
    exact absurd hcyclic ((p.graph_acyclic_iff hnodup hknown).mp hacyclic)
  · refine ⟨x, hround, ?_⟩
    unfold build
    dsimp only
    rw [hrepeated, hunknown]
    simp only [hx]
    rfl

/-- A declaration with distinct names and known dependencies that form a cycle is refused with a
cycle of names: at least two of them, the last one the same as the first, all others distinct,
and each the name of a node that declares a dependency on the one before it. -/
theorem cycle_reported (p : WorkflowPlan I) (hnodup : p.nodeNames.Nodup) (hknown : p.Known)
    (hcyclic : p.Cyclic) :
    ∃ names, p.build = .error (.cyclicGraph names) ∧ 2 ≤ names.length ∧
      names.head? = names.getLast? ∧ names.dropLast.Nodup ∧
      ∀ before x y after, names = before ++ x :: y :: after →
        ∃ n ∈ p.nodes, n.name = y ∧ x ∈ n.dependsOn := by
  obtain ⟨x, hround, hbuild⟩ := p.build_of_cyclic hnodup hknown hcyclic
  have hwf := p.graph_wellFormed hnodup hknown
  have hcycle := p.graph.cycleFrom_circuit hwf x hround
  refine ⟨_, hbuild, ?_, ?_, ?_, ?_⟩
  · rw [List.length_map]
    exact hcycle.long
  · rw [List.head?_map, List.getLast?_map, hcycle.closed]
  · rw [← List.map_dropLast]
    refine hcycle.distinct.map_on fun i hi j hj => ?_
    have hlt : ∀ k ∈ (p.graph.cycleFrom x).dropLast, k < p.nodes.length := by
      intro k hk
      obtain ⟨l, hedge⟩ := p.graph.source_of_chain _ hcycle.chained k hk
      exact p.graph_size ▸ hwf.source_lt k l hedge
    exact p.nameAt_inj hnodup i j (hlt i hi) (hlt j hj)
  · intro before y z after heq
    have hchain : ((p.graph.cycleFrom x).map p.nameAt).IsChain p.Requires :=
      (List.isChain_map p.nameAt).mpr (hcycle.chained.imp (p.requires_of_edge hnodup hknown))
    rw [heq, List.isChain_append] at hchain
    exact (List.isChain_cons_cons.mp hchain.2.1).1

/-- Three dependents in a ring, one of which depends on itself, and one outside the ring. -/
def ring : WorkflowPlan ⟨Empty, nofun⟩ where
  name := "ring"
  nodes := [silentNode "base" [], silentNode "first" ["last", "base"],
    silentNode "second" ["first", "second"], silentNode "last" ["second"]]

/-- The ring is reported as a cycle of names, closed and otherwise without repetition. -/
theorem cycle_reported_ring :
    ring.nodeNames.Nodup ∧ ring.Known ∧ ring.Cyclic ∧
      ∃ names, ring.build = .error (.cyclicGraph names) ∧ 2 ≤ names.length ∧
        names.head? = names.getLast? ∧ names.dropLast.Nodup := by
  have hnodup : ring.nodeNames.Nodup := by decide
  have hknown : ring.Known := by
    unfold Known
    decide
  have hfirst : ring.DependsOn 1 3 := ⟨_, _, rfl, rfl, by decide⟩
  have hlast : ring.DependsOn 3 2 := ⟨_, _, rfl, rfl, by decide⟩
  have hsecond : ring.DependsOn 2 1 := ⟨_, _, rfl, rfl, by decide⟩
  have hcyclic : ring.Cyclic := ⟨1, ((Relation.TransGen.single hfirst).tail hlast).tail hsecond⟩
  obtain ⟨names, hbuild, hlong, hclosed, hdistinct, _⟩ := ring.cycle_reported hnodup hknown hcyclic
  exact ⟨hnodup, hknown, hcyclic, names, hbuild, hlong, hclosed, hdistinct⟩

end WorkflowPlan
end Reconciliation
